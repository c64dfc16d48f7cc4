import ZManager.Decode.Lzop
import ZManager.Decode.UnixCompressEnd
import ZManager.Decode.UuFailures

/-! # Failures of the inner readers

The decoders for lzop streams and for encoded text report a failure that they meet; for
encoded text, reading comes to an end at all unless it meets garbage behind the payload.
The decoder for Unix compress streams takes a failure for the end of the data.
-/

namespace ZManager

open UnixCompress

/-- **When a failure of the inner reader ends reading with an error**, unless it is behind
what is read. Always for lzop streams; for encoded text, if and only if no round up to the
first error meets garbage behind the payload; for Unix compress streams, if and only if the
bytes before are refused. -/
theorem inner_failure_is_reported_iff (source : IoError) {sizes : Nat → Nat}
    (positive : ∀ index, 0 < sizes index) :
    (∀ (host : LzopHost) (front tail : List InnerRead),
      (∃ outcome, LzopReader.DecodesTo host (front ++ .failed source :: tail) sizes outcome) ∧
        ∀ outcome, LzopReader.DecodesTo host (front ++ .failed source :: tail) sizes outcome →
          (∃ error, outcome = .error error) ∨
            ∀ other, LzopReader.DecodesTo host (front ++ other) sizes outcome) ∧
    (∀ chunks : List (List UInt8),
      ((∃ outcome final, ReadsToEnd (UuDecoder.ReturnsOr source) sizes (.new chunks) outcome
          final) ↔ UuDecoder.ClearBeforeError chunks) ∧
        ∀ outcome final,
          ReadsToEnd (UuDecoder.ReturnsOr source) sizes (.new chunks) outcome final →
            (∃ error, outcome = .error error) ∨
              ∀ more, ∃ final,
                ReadsToEnd UuDecoder.Returns sizes (.new (chunks ++ more)) outcome final) ∧
    ∀ (bytes : List UInt8) (tail : List InnerRead), Silent tail →
      (∃ outcome extracted, UnixCompressReader.DecodesTo
        (bytes.map .byte ++ .failed source :: tail) sizes outcome extracted) ∧
        ∀ outcome extracted, UnixCompressReader.DecodesTo
          (bytes.map .byte ++ .failed source :: tail) sizes outcome extracted →
            UnixCompressReader.DecodesTo (bytes.map .byte) sizes outcome extracted ∧
              ((∃ fault, outcome = .error fault) ↔
                UnixCompressReader.Refused bytes extracted) := by
  refine ⟨fun host front tail => ⟨LzopReader.exists_decodesTo host _ positive,
    fun outcome decodes => LzopReader.decodesTo_of_failure decodes⟩, fun chunks =>
      ⟨UuDecoder.exists_readsToEnd_or_iff source chunks positive, fun outcome final reads =>
        UuDecoder.readsToEnd_of_failure positive
          (show (UuDecoder.new chunks).Within from Nat.le_refl 0) reads⟩, ?_⟩
  · intro bytes tail silent
    have failing : Silent (.failed source :: tail) := by
      intro value member
      rcases List.mem_cons.mp member with failed | member
      · cases failed
      · exact silent value member
    have same := UnixCompressReader.decodesTo_append_iff failing (bytes.map .byte) sizes
    obtain ⟨⟨outcome, extracted, decodes⟩, refused⟩ :=
      UnixCompressReader.decodesTo_bytes bytes positive
    refine ⟨⟨outcome, extracted, (same outcome extracted).mpr decodes⟩, ?_⟩
    intro outcome extracted decodes
    have decodes := (same outcome extracted).mp decodes
    exact ⟨decodes, refused outcome extracted decodes⟩

/-- A failure in place of the first byte is an error. -/
theorem failing_header_is_reported : ∃ fault extracted,
    UnixCompressReader.DecodesTo [.failed ⟨.other, "broken disk"⟩] (fun _ => 1) (.error fault)
      extracted := by
  obtain ⟨⟨outcome, extracted, decodes⟩, refused⟩ :=
    (inner_failure_is_reported_iff ⟨.other, "broken disk"⟩ fun _ => Nat.one_pos).2.2 [] []
      (fun _ => List.not_mem_nil)
  obtain ⟨fault, rfl⟩ := (refused outcome extracted decodes).2.mpr trivial
  exact ⟨fault, extracted, decodes⟩

/-- Two letters are decoded, but one only when the reader fails in place of the last
byte. -/
theorem failing_reader_shortens_output :
    (∃ extracted, UnixCompressReader.DecodesTo
        ([0x1f, 0x9d, 0x10, 0x41, 0x84, 0x00].map .byte) (fun _ => 8) (.ok [0x41, 0x42])
        extracted) ∧
      ∃ extracted, UnixCompressReader.DecodesTo
        ([0x1f, 0x9d, 0x10, 0x41, 0x84].map .byte ++ [InnerRead.failed ⟨.other, "broken disk"⟩])
        (fun _ => 8) (.ok [0x41]) extracted :=
  ⟨⟨_, UnixCompressReader.decodesTo_of_one_answer (by decide +kernel) (by decide +kernel)
      (by decide) (by decide +kernel)⟩,
    ⟨_, UnixCompressReader.decodesTo_of_one_answer (by decide +kernel) (by decide +kernel)
      (by decide) (by decide +kernel)⟩⟩

end ZManager
