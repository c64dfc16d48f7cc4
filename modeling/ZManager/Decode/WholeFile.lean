import ZManager.Decode.Routes

/-! # Reading whole files

A route hands on what its decoder holds, neither more nor less. Whether that is the
whole of a file with several members is up to the decoder that the route picked.
-/

namespace ZManager

variable {after : SizeLimitWriter} {decoder : BoundedDecoder} {isCancelled : Nat → Bool}
  {asked : Nat}

/-! ## Loops -/

theorem SizeLimitWriter.writeAll_eq_ok {writer : SizeLimitWriter} {buffer : List UInt8}
    (done : writer.writeAll buffer = .ok after) : after.inner = writer.inner ++ buffer := by
  fun_induction writeAll writer buffer with
  | case1 writer => cases done; simp
  | case2 writer buffer unfinished failure refused => cases done
  | case3 writer buffer unfinished next stuck => cases done
  | case4 writer buffer unfinished count next wrote ih =>
    rw [ih done]
    unfold write at wrote
    split at wrote
    · obtain ⟨counted, rfl⟩ := Prod.mk.inj (Except.ok.inj wrote)
      have none : buffer.drop (count + 1) = [] := List.drop_of_length_le counted.le
      rw [none, List.append_nil]
    · split_ifs at wrote
      obtain ⟨counted, rfl⟩ := Prod.mk.inj (Except.ok.inj wrote)
      rw [counted, List.append_assoc, List.take_append_drop]

/-- Without a limit every byte is written. -/
theorem SizeLimitWriter.writeAll_unlimited (writer : SizeLimitWriter)
    (unlimited : writer.maxBytes = none) (buffer : List UInt8) :
    ∃ after, writer.writeAll buffer = .ok after ∧ after.maxBytes = none := by
  unfold writeAll
  split_ifs with empty
  · exact ⟨writer, rfl, unlimited⟩
  · unfold write
    rw [unlimited]
    cases buffer with
    | nil => exact absurd rfl empty
    | cons byte more =>
      refine ⟨{ writer with inner := writer.inner ++ byte :: more }, ?_, unlimited⟩
      simp only [List.length_cons]
      unfold writeAll
      rw [if_pos (by simp), unlimited]

/-- A copy that succeeds has written all of the reader. -/
theorem copyBytes_eq_ok {reader : ByteReader IoError} {output : SizeLimitWriter}
    (done : copyBytes reader output = .ok after) :
    after.inner = output.inner ++ reader.remaining := by
  fun_induction copyBytes reader output with
  | case1 reader output failure read => cases done
  | case2 reader output next read =>
    cases done
    rw [(ByteReader.read_eq_nil (by decide) read).1, List.append_nil]
  | case3 reader output byte more next read failure wrote => cases done
  | case4 reader output byte more next read output' wrote ih =>
    rw [ih done, SizeLimitWriter.writeAll_eq_ok wrote, (ByteReader.read_eq_ok read).1,
      List.append_assoc]

theorem copyBytes_unlimited {reader : ByteReader IoError} {output : SizeLimitWriter}
    (whole : reader.failure = none) (unlimited : output.maxBytes = none) :
    ∃ after, copyBytes reader output = .ok after := by
  fun_induction copyBytes reader output with
  | case1 reader output failure read =>
    obtain ⟨chunk, next, again⟩ := ByteReader.exists_read whole
    rw [again] at read
    cases read
  | case2 reader output next read => exact ⟨output, rfl⟩
  | case3 reader output byte more next read failure wrote =>
    obtain ⟨after, again, -⟩ := output.writeAll_unlimited unlimited (byte :: more)
    rw [again] at wrote
    cases wrote
  | case4 reader output byte more next read output' wrote ih =>
    obtain ⟨after, again, still⟩ := output.writeAll_unlimited unlimited (byte :: more)
    rw [again] at wrote
    cases wrote
    exact ih ((ByteReader.read_eq_ok read).2.trans whole) still

/-- A bounded decoder that hands out nothing is at the end. -/
theorem BoundedDecoder.read_eq_nil {size : Nat} {next : BoundedDecoder} (positive : 0 < size)
    (done : decoder.read size = .ok ([], next)) :
    decoder.inner.remaining = [] := by
  unfold BoundedDecoder.read at done
  rw [if_neg (by omega)] at done
  cases limit : decoder.remaining with
  | none =>
    rw [limit] at done
    obtain ⟨⟨chunk, inner⟩, read, same⟩ := Except.map_eq_ok_iff.mp done
    cases same
    exact (ByteReader.read_eq_nil positive read).1
  | some remaining =>
    rw [limit] at done
    simp only at done
    split_ifs at done with spent
    · split at done
      · cases done
      · rename_i inner read
        exact (ByteReader.read_eq_nil (by decide) read).1
      · cases done
    · obtain ⟨⟨chunk, inner⟩, read, same⟩ := Except.map_eq_ok_iff.mp done
      cases same
      have left : 0 < remaining.toNat := by
        rw [Nat.pos_iff_ne_zero]
        intro zero
        exact spent (UInt64.toNat_inj.mp zero)
      exact (ByteReader.read_eq_nil (by omega) read).1

/-- A spool that is made holds all of the decoder. -/
theorem spool_eq_ok {asked' : Nat} {spooled bytes : List UInt8}
    (done : spool isCancelled asked decoder spooled = .ok (bytes, asked')) :
    bytes = spooled ++ decoder.inner.remaining := by
  fun_induction spool isCancelled asked decoder spooled with
  | case1 asked decoder spooled cancelled => cases done
  | case2 asked decoder spooled going failure read => cases done
  | case3 asked decoder spooled going next read =>
    cases done
    rw [BoundedDecoder.read_eq_nil (by decide) read, List.append_nil]
  | case4 asked decoder spooled going byte more next read ih =>
    rw [ih done, (BoundedDecoder.read_eq_ok read).1, List.append_assoc]

theorem spool_unlimited {asked : Nat} {decoder : BoundedDecoder} {spooled : List UInt8}
    (whole : decoder.inner.failure = none) (unlimited : decoder.remaining = none) :
    ∃ made, spool (fun _ => false) asked decoder spooled = .ok made := by
  fun_induction spool (fun _ => false) asked decoder spooled with
  | case1 asked decoder spooled cancelled => cases cancelled
  | case2 asked decoder spooled going failure read =>
    obtain ⟨chunk, inner, again⟩ :=
      @ByteReader.exists_read _ defaultIoBufferBytes decoder.inner whole
    unfold BoundedDecoder.read at read
    rw [if_neg (by decide), unlimited, again] at read
    cases read
  | case3 asked decoder spooled going next read => exact ⟨_, rfl⟩
  | case4 asked decoder spooled going byte more next read ih =>
    have still : next.remaining = none := by
      unfold BoundedDecoder.read at read
      rw [if_neg (by decide), unlimited] at read
      obtain ⟨⟨chunk, inner⟩, -, same⟩ := Except.map_eq_ok_iff.mp read
      cases same
      rfl
    exact ih ((BoundedDecoder.read_eq_ok read).2.trans whole) still

/-! ## Validation -/

/-- The TAR routes take the bytes for an archive: the walk over them meets no failure, and
they end in two zero-filled records. -/
def AcceptedTar (walk : TarWalk) (file : List UInt8) : Prop :=
  validateTarStructure walk (fun _ => false) 0 file = .ok ()

instance (walk : TarWalk) (file : List UInt8) : Decidable (AcceptedTar walk file) :=
  decidable_of_iff ((validateTarStructure walk (fun _ => false) 0 file).isOk = true) (by
    unfold AcceptedTar
    cases validateTarStructure walk (fun _ => false) 0 file with
    | error failure => exact iff_of_false Bool.false_ne_true nofun
    | ok done => exact iff_of_true rfl rfl)

/-- A walk that is not cancelled is observed as if no one could cancel it. -/
theorem observeWalk_eq_ok {file : List UInt8} {observer last : TarStructureObserver}
    {steps : List WalkStep} (done : observeWalk isCancelled file asked observer steps = .ok last)
    (asked' : Nat) :
    observeWalk (fun _ => false) file asked' observer steps = .ok last := by
  induction steps generalizing asked asked' observer with
  | nil => exact done
  | cons step steps ih =>
    cases step with
    | read offset size => exact ih done asked'
    | entry result =>
      unfold observeWalk at done ⊢
      split_ifs at done
      cases result with
      | error failure => cases done
      | ok _ => exact ih done (asked' + 1)

theorem acceptedTar_of_validated {walk : TarWalk} {file : List UInt8}
    (done : validateTarStructure walk isCancelled asked file = .ok ()) :
    AcceptedTar walk file := by
  obtain ⟨steps, walked, done⟩ := Except.bind_eq_ok_iff.mp done
  obtain ⟨observer, observed, done⟩ := Except.bind_eq_ok_iff.mp done
  exact Except.bind_eq_ok_iff.mpr ⟨steps, walked,
    Except.bind_eq_ok_iff.mpr ⟨observer, observeWalk_eq_ok observed 0, done⟩⟩

/-- Without cancellation it does not matter how often it was asked for before. -/
theorem AcceptedTar.validated {walk : TarWalk} {file : List UInt8}
    (accepted : AcceptedTar walk file) (asked : Nat) :
    validateTarStructure walk (fun _ => false) asked file = .ok () := by
  obtain ⟨steps, walked, done⟩ := Except.bind_eq_ok_iff.mp accepted
  obtain ⟨observer, observed, done⟩ := Except.bind_eq_ok_iff.mp done
  exact Except.bind_eq_ok_iff.mpr ⟨steps, walked,
    Except.bind_eq_ok_iff.mpr ⟨observer, observeWalk_eq_ok observed asked, done⟩⟩

/-- What is opened is all of the decoder, and it is accepted. -/
theorem openValidated_eq_ok {walk : TarWalk} {bytes : List UInt8}
    (done : openValidated walk isCancelled decoder = .ok bytes) :
    bytes = decoder.inner.remaining ∧ AcceptedTar walk bytes := by
  obtain ⟨⟨spooled, asked⟩, made, done⟩ := Except.bind_eq_ok_iff.mp done
  obtain ⟨_, validated, same⟩ := Except.bind_eq_ok_iff.mp done
  cases same
  exact ⟨spool_eq_ok made, acceptedTar_of_validated validated⟩

theorem openValidated_unlimited {walk : TarWalk} {decoder : BoundedDecoder}
    (whole : decoder.inner.failure = none) (unlimited : decoder.remaining = none)
    (accepted : AcceptedTar walk decoder.inner.remaining) :
    ∃ bytes, openValidated walk (fun _ => false) decoder = .ok bytes := by
  obtain ⟨⟨spooled, asked⟩, made⟩ := @spool_unlimited 0 decoder [] whole unlimited
  obtain rfl : spooled = decoder.inner.remaining := spool_eq_ok made
  exact ⟨_, Except.bind_eq_ok_iff.mpr ⟨_, made,
    Except.bind_eq_ok_iff.mpr ⟨(), accepted.validated asked, rfl⟩⟩⟩

/-! ## Routes -/

/-- The decoder that a route opens for a compression, if it supports it. -/
def routeDecoder : DecodingRoute → Compression → Option DecoderKind
  | .rawStream, .gzip => some .multiGzDecoder
  | .tarAdapter, .gzip | .debPayload, .gzip => some .gzDecoder
  | _, .bzip2 => some .bzDecoder
  | _, .xz => some (.xzReader true)
  | .debPayload, .lzip => none
  | _, .lzip => some .lzipReader
  | _, .zstd => some .zstdDecoder

/-- The loop of a route. -/
def readOut (walk : TarWalk) (config : ReadConfig) (reader : ByteReader IoError) :
    DecodingRoute → Except DecodeError (List UInt8)
  | .rawStream => do
      let output ← (copyBytes reader { maxBytes := config.maxExpandedBytes }).mapError .io
      return output.inner
  | .tarAdapter | .debPayload =>
    openValidated walk config.isCancelled ⟨reader, config.maxDecodedBytes⟩

section

variable {decoders : Decoders} {walk : TarWalk} {compression : Compression} {config : ReadConfig}
variable {file bytes : List UInt8} {route : DecodingRoute} {reader : ByteReader IoError}

theorem readOut_eq_ok (done : readOut walk config reader route = .ok bytes) :
    bytes = reader.remaining ∧ (route ≠ .rawStream → AcceptedTar walk bytes) := by
  cases route with
  | rawStream =>
    obtain ⟨output, copied, same⟩ := Except.bind_eq_ok_iff.mp done
    cases same
    cases copy : copyBytes reader { maxBytes := config.maxExpandedBytes } with
    | error failure =>
      rw [copy] at copied
      cases copied
    | ok after =>
      rw [copy] at copied
      cases copied
      exact ⟨copyBytes_eq_ok copy, fun other => absurd rfl other⟩
  | tarAdapter =>
    obtain ⟨same, accepted⟩ := openValidated_eq_ok done
    exact ⟨same, fun _ => accepted⟩
  | debPayload =>
    obtain ⟨same, accepted⟩ := openValidated_eq_ok done
    exact ⟨same, fun _ => accepted⟩

theorem readOut_unlimited (whole : reader.failure = none) (route : DecodingRoute)
    (accepted : route ≠ .rawStream → AcceptedTar walk reader.remaining) :
    ∃ bytes, readOut walk {} reader route = .ok bytes := by
  cases route with
  | rawStream =>
    obtain ⟨after, copy⟩ := @copyBytes_unlimited reader { maxBytes := none } whole rfl
    refine ⟨after.inner, ?_⟩
    change ((copyBytes reader { maxBytes := none }).mapError DecodeError.io).bind _ = _
    rw [copy]
    rfl
  | tarAdapter =>
    exact @openValidated_unlimited walk ⟨reader, none⟩ whole rfl (accepted nofun)
  | debPayload =>
    exact @openValidated_unlimited walk ⟨reader, none⟩ whole rfl (accepted nofun)

theorem openDecoder_eq_ok {kind : DecoderKind} :
    openDecoder decoders kind file = .ok reader ↔ decoders kind file = .ok reader := by
  unfold openDecoder
  cases decoders kind file with
  | error failure =>
    constructor
    · intro opened
      cases opened
    · intro opened
      cases opened
  | ok other =>
    constructor
    · intro opened
      cases opened
      rfl
    · intro opened
      cases opened
      rfl

/-- A route is its decoder, read by one of the two loops. -/
theorem deliver_eq (decoders : Decoders) (walk : TarWalk) (compression : Compression)
    (config : ReadConfig) (file : List UInt8) (route : DecodingRoute) :
    deliver decoders walk compression config file route =
      match routeDecoder route compression with
      | none => .error (unsupportedPayload "TarLz")
      | some kind => (openDecoder decoders kind file).bind (readOut walk config · route) := by
  cases route with
  | rawStream =>
    cases compression with
    | gzip => rfl
    | bzip2 => rfl
    | xz => rfl
    | lzip => rfl
    | zstd => rfl
  | tarAdapter =>
    cases compression with
    | gzip => rfl
    | bzip2 => rfl
    | xz => rfl
    | lzip => rfl
    | zstd => rfl
  | debPayload =>
    cases compression with
    | gzip => rfl
    | bzip2 => rfl
    | xz => rfl
    | lzip => rfl
    | zstd => rfl

/-- What a route hands on is what its decoder holds. -/
theorem deliver_eq_ok (done : deliver decoders walk compression config file route = .ok bytes) :
    ∃ kind reader, routeDecoder route compression = some kind ∧
      decoders kind file = .ok reader ∧ bytes = reader.remaining ∧
        (route ≠ .rawStream → AcceptedTar walk bytes) := by
  rw [deliver_eq] at done
  cases picked : routeDecoder route compression with
  | none =>
    rw [picked] at done
    cases done
  | some kind =>
    rw [picked] at done
    obtain ⟨reader, opened, done⟩ := Except.bind_eq_ok_iff.mp done
    exact ⟨kind, reader, rfl, openDecoder_eq_ok.mp opened, readOut_eq_ok done⟩

/-- Without limits, a decoder that ends well is handed on. -/
theorem deliver_unlimited {kind : DecoderKind}
    (picked : routeDecoder route compression = some kind)
    (opened : decoders kind file = .ok reader) (whole : reader.failure = none)
    (accepted : route ≠ .rawStream → AcceptedTar walk reader.remaining) :
    deliver decoders walk compression {} file route = .ok reader.remaining := by
  have succeeds : ∃ bytes, deliver decoders walk compression {} file route = .ok bytes := by
    obtain ⟨bytes, done⟩ := readOut_unlimited whole route accepted
    refine ⟨bytes, ?_⟩
    rw [deliver_eq, picked]
    simp only
    rw [openDecoder_eq_ok.mpr opened]
    exact done
  obtain ⟨bytes, done⟩ := succeeds
  obtain ⟨kind', reader', picked', opened', rfl, -⟩ := deliver_eq_ok done
  rw [picked] at picked'
  cases picked'
  rw [opened] at opened'
  cases opened'
  exact done

end

/-! ## Files of several members -/

/-- The decoder hands out the first member and ends. -/
def StopsAfterFirst (decoders : Decoders) (encode : Compression → List UInt8 → List UInt8)
    (kind : DecoderKind) (compression : Compression) : Prop :=
  ∀ first rest, ∃ reader,
    decoders kind ((first :: rest).flatMap (encode compression)) = .ok reader ∧
      reader.remaining = first ∧ reader.failure = none

/-- The decoder hands out all members. -/
def ReadsAllMembers (decoders : Decoders) (encode : Compression → List UInt8 → List UInt8)
    (kind : DecoderKind) (compression : Compression) : Prop :=
  ∀ first rest, ∃ reader,
    decoders kind ((first :: rest).flatMap (encode compression)) = .ok reader ∧
      reader.remaining = (first :: rest).flatten ∧ reader.failure = none

/-- What the documentation of the decoders says of files that are put together from the
encodings of payloads. -/
structure Decoders.Documented (decoders : Decoders)
    (encode : Compression → List UInt8 → List UInt8) : Prop where
  gzDecoder : StopsAfterFirst decoders encode .gzDecoder .gzip
  bzDecoder : StopsAfterFirst decoders encode .bzDecoder .bzip2
  multiGzDecoder : ReadsAllMembers decoders encode .multiGzDecoder .gzip
  xzReader : ReadsAllMembers decoders encode (.xzReader true) .xz
  lzipReader : ReadsAllMembers decoders encode .lzipReader .lzip
  zstdDecoder : ReadsAllMembers decoders encode .zstdDecoder .zstd

/-- Every route that succeeds hands on all payloads, so that any two agree. -/
def ReadsWholeFile (decoders : Decoders) (walk : TarWalk)
    (encode : Compression → List UInt8 → List UInt8) (compression : Compression)
    (payloads : List (List UInt8)) : Prop :=
  (∀ route config bytes,
      deliver decoders walk compression config (payloads.flatMap (encode compression)) route =
        .ok bytes → bytes = payloads.flatten) ∧
    ∀ route route' config config' bytes bytes',
      deliver decoders walk compression config (payloads.flatMap (encode compression)) route =
        .ok bytes →
        deliver decoders walk compression config' (payloads.flatMap (encode compression))
          route' = .ok bytes' → bytes = bytes'

section

variable {decoders : Decoders} {encode : Compression → List UInt8 → List UInt8}

variable {compression : Compression}

/-- The decoder that reads the first member only is picked by the routes for TAR archives
and for gzip, and by all routes for bzip2. -/
theorem Decoders.Documented.stops (documented : decoders.Documented encode)
    {route : DecodingRoute} {kind : DecoderKind}
    (picked : routeDecoder route compression = some kind)
    (stopping : compression = .bzip2 ∨ compression = .gzip ∧ route ≠ .rawStream) :
    StopsAfterFirst decoders encode kind compression := by
  rcases stopping with rfl | ⟨rfl, other⟩
  · cases route <;> cases picked <;> exact documented.bzDecoder
  · cases route with
    | rawStream => exact absurd rfl other
    | tarAdapter =>
      cases picked
      exact documented.gzDecoder
    | debPayload =>
      cases picked
      exact documented.gzDecoder

theorem Decoders.Documented.readsAll (documented : decoders.Documented encode)
    {route : DecodingRoute} {kind : DecoderKind}
    (picked : routeDecoder route compression = some kind)
    (going : ¬(compression = .bzip2 ∨ compression = .gzip ∧ route ≠ .rawStream)) :
    ReadsAllMembers decoders encode kind compression := by
  cases compression with
  | bzip2 => exact absurd (.inl rfl) going
  | gzip =>
    obtain rfl : route = .rawStream := by
      by_contra other
      exact going (.inr ⟨rfl, other⟩)
    cases picked
    exact documented.multiGzDecoder
  | xz => cases route <;> cases picked <;> exact documented.xzReader
  | lzip => cases route <;> cases picked <;> exact documented.lzipReader
  | zstd => cases route <;> cases picked <;> exact documented.zstdDecoder

/-- A route that stops after a member hands on the first payload. -/
theorem exists_delivers_first (documented : decoders.Documented encode) {walk : TarWalk}
    {first : List UInt8}
    (stopping : compression = .bzip2 ∨ compression = .gzip ∧ AcceptedTar walk first)
    (rest : List (List UInt8)) : ∃ route,
      deliver decoders walk compression {} ((first :: rest).flatMap (encode compression)) route =
        .ok first := by
  rcases stopping with rfl | ⟨rfl, accepted⟩
  · obtain ⟨reader, opened, rfl, ends⟩ := documented.bzDecoder first rest
    exact ⟨.rawStream, deliver_unlimited rfl opened ends fun other => absurd rfl other⟩
  · obtain ⟨reader, opened, rfl, ends⟩ := documented.gzDecoder first rest
    exact ⟨.tarAdapter, deliver_unlimited rfl opened ends fun _ => accepted⟩

/-- **Whole files.** The routes hand on every payload of a file exactly when the payloads
after the first are empty wherever a route stops after a member: for bzip2, and for gzip
where the first payload alone is taken for a TAR archive. -/
theorem readsWholeFile_iff (documented : decoders.Documented encode) (walk : TarWalk)
    (compression : Compression) (first : List UInt8) (rest : List (List UInt8)) :
    ReadsWholeFile decoders walk encode compression (first :: rest) ↔
      (compression = .bzip2 ∨ compression = .gzip ∧ AcceptedTar walk first →
        rest.flatten = []) := by
  constructor
  · intro whole stopping
    obtain ⟨route, delivered⟩ := exists_delivers_first documented stopping rest
    have all := whole.1 route {} first delivered
    rw [List.flatten_cons] at all
    exact List.self_eq_append_right.mp all
  · intro condition
    have each : ∀ route config bytes,
        deliver decoders walk compression config ((first :: rest).flatMap (encode compression))
          route = .ok bytes → bytes = (first :: rest).flatten := by
      intro route config bytes done
      obtain ⟨kind, reader, picked, opened, rfl, accepted⟩ := deliver_eq_ok done
      by_cases stopping : compression = .bzip2 ∨ compression = .gzip ∧ route ≠ .rawStream
      · obtain ⟨reader', opened', one, -⟩ := documented.stops picked stopping first rest
        cases opened.symm.trans opened'
        have none : rest.flatten = [] := condition <| stopping.imp_right fun gzip =>
          ⟨gzip.1, one ▸ accepted gzip.2⟩
        rw [one, List.flatten_cons, none, List.append_nil]
      · obtain ⟨reader', opened', all, -⟩ := documented.readsAll picked stopping first rest
        cases opened.symm.trans opened'
        exact all
    refine ⟨each, ?_⟩
    intro route route' config config' bytes bytes' done done'
    rw [each route config bytes done, each route' config' bytes' done']

end

/-! ## A compression -/

/-- A member of a simple compression: every byte behind a mark, then an end mark. -/
def encodeMember (payload : List UInt8) : List UInt8 :=
  payload.flatMap (fun byte => [1, byte]) ++ [0]

/-- The first member of a file. -/
def decodeFirst : List UInt8 → List UInt8
  | 1 :: byte :: rest => byte :: decodeFirst rest
  | _ => []

/-- All members of a file. -/
def decodeAll : List UInt8 → List UInt8
  | 1 :: byte :: rest => byte :: decodeAll rest
  | 0 :: rest => decodeAll rest
  | _ => []

theorem decodeFirst_encodeMember (payload rest : List UInt8) :
    decodeFirst (encodeMember payload ++ rest) = payload := by
  induction payload with
  | nil => rfl
  | cons byte more ih => exact congrArg (byte :: ·) ih

theorem decodeAll_encodeMember (payload rest : List UInt8) :
    decodeAll (encodeMember payload ++ rest) = payload ++ decodeAll rest := by
  induction payload with
  | nil => rfl
  | cons byte more ih => exact congrArg (byte :: ·) ih

theorem decodeAll_members (payloads : List (List UInt8)) :
    decodeAll (payloads.flatMap encodeMember) = payloads.flatten := by
  induction payloads with
  | nil => rfl
  | cons first rest ih =>
    rw [List.flatMap_cons, decodeAll_encodeMember, ih, List.flatten_cons]

/-- Decoders of the simple compression that stop, or go on, as the decoders of the same
names do. -/
def memberDecoders : Decoders
  | .gzDecoder, file | .bzDecoder, file => .ok { remaining := decodeFirst file }
  | _, file => .ok { remaining := decodeAll file }

theorem memberDecoders_documented : memberDecoders.Documented fun _ => encodeMember where
  gzDecoder first _ := ⟨_, rfl, decodeFirst_encodeMember first _, rfl⟩
  bzDecoder first _ := ⟨_, rfl, decodeFirst_encodeMember first _, rfl⟩
  multiGzDecoder first rest := ⟨_, rfl, decodeAll_members (first :: rest), rfl⟩
  xzReader first rest := ⟨_, rfl, decodeAll_members (first :: rest), rfl⟩
  lzipReader first rest := ⟨_, rfl, decodeAll_members (first :: rest), rfl⟩
  zstdDecoder first rest := ⟨_, rfl, decodeAll_members (first :: rest), rfl⟩

/-- A walk over archives of zero-filled records: it reads record after record, until a
read yields nothing. -/
def recordWalk : TarWalk := fun file =>
  .ok ((List.range (file.length / tarBlockBytes + 1)).map fun index =>
    .read (tarBlockBytes * index) tarBlockBytes)

/-- A file of two zstd frames is read whole. -/
theorem readsWholeFile_zstd_pair :
    ReadsWholeFile memberDecoders recordWalk (fun _ => encodeMember) .zstd [[97], [98]] :=
  (readsWholeFile_iff memberDecoders_documented recordWalk .zstd [97] [[98]]).mpr (by simp)

/-- A file of two bzip2 streams loses the second as a raw stream, and a file of two gzip
members loses the second as a TAR input when the first is an archive without entries. -/
theorem second_member_lost :
    ¬ReadsWholeFile memberDecoders recordWalk (fun _ => encodeMember) .bzip2 [[97], [98]] ∧
      ¬ReadsWholeFile memberDecoders recordWalk (fun _ => encodeMember) .gzip
        [List.replicate 1024 0, [98]] := by
  have lost {compression : Compression} {first : List UInt8}
      (stopping : compression = .bzip2 ∨ compression = .gzip ∧ AcceptedTar recordWalk first) :
      ¬ReadsWholeFile memberDecoders recordWalk (fun _ => encodeMember) compression
        [first, [98]] := by
    intro whole
    obtain ⟨route, delivered⟩ :=
      exists_delivers_first memberDecoders_documented stopping [[98]]
    have all := whole.1 route {} first delivered
    exact List.cons_ne_nil _ _ (List.self_eq_append_right.mp all)
  exact ⟨lost (.inl rfl), lost (.inr ⟨rfl, by decide +kernel⟩)⟩

end ZManager
