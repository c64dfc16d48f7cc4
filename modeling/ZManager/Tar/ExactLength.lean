import ZManager.Foundation.ReadToEnd
import ZManager.Safety.Policy

/-! # A member of the declared length

A TAR header states the length of a member before its bytes are read. The reader hands
out exactly so many bytes, whatever the file does: a read that finds nothing fills the
buffer with zeros. The next call reads the file again.
-/

namespace ZManager

/-- What the reads of an open file will answer, one after the other. A read hands out
as much of its answer as the buffer holds. -/
abbrev FileReads := Nat → Except IoError (List UInt8)

/-- The answers behind the first one. -/
def FileReads.later (reads : FileReads) : FileReads := fun index => reads (index + 1)

/-- Cuts or pads a file to the announced length. -/
structure ExactLengthReader where
  inner : FileReads
  remaining : Nat
  padded : Nat

namespace ExactLengthReader

def new (inner : FileReads) (declared : Nat) : ExactLengthReader := ⟨inner, declared, 0⟩

/-- Whether the file still had data past the declared length. -/
def grew (reader : ExactLengthReader) : Bool :=
  match reader.inner 0 with
  | .ok bytes => !(bytes.take 1).isEmpty
  | .error _ => false

/-- A read with room for `out` bytes. -/
def read (reader : ExactLengthReader) (out : Nat) :
    Except IoError (List UInt8) × ExactLengthReader :=
  if reader.remaining = 0 ∨ out = 0 then (.ok [], reader)
  else
    let cap := min reader.remaining out
    match reader.inner 0 with
    | .error source => (.error source, { reader with inner := reader.inner.later })
    | .ok bytes =>
      if bytes.take cap = [] then
        (.ok (List.replicate cap 0), { reader with
          inner := reader.inner.later
          remaining := reader.remaining - cap
          padded := reader.padded + cap })
      else
        (.ok (bytes.take cap), { reader with
          inner := reader.inner.later
          remaining := reader.remaining - (bytes.take cap).length })

def Returns (reader : ExactLengthReader) (out : Nat) (answer : Except IoError (List UInt8))
    (next : ExactLengthReader) : Prop :=
  reader.read out = (answer, next)

/-- Calls with buffers of the given sizes until one answers nothing or fails, so many at
most. -/
def copyRounds : Nat → (sizes : Nat → Nat) → ExactLengthReader →
    Except IoError (List UInt8) × ExactLengthReader
  | 0, _, reader => (.ok [], reader)
  | rounds + 1, sizes, reader =>
    match reader.read (sizes 0) with
    | (.error source, next) => (.error source, next)
    | (.ok bytes, next) =>
      if bytes = [] then (.ok [], next)
      else
        let (rest, last) := copyRounds rounds (fun index => sizes (index + 1)) next
        (rest.map (bytes ++ ·), last)

/-- Reads to the end. Every call hands out a byte, so that there is no further call. -/
def copy (sizes : Nat → Nat) (reader : ExactLengthReader) :
    Except IoError (List UInt8) × ExactLengthReader :=
  copyRounds (reader.remaining + 1) sizes reader

/-! ## What a read does -/

variable {reader next final : ExactLengthReader} {out : Nat}
  {answer outcome : Except IoError (List UInt8)} {sizes : Nat → Nat}

/-- What a call of `read` can do. -/
inductive Answer (reader : ExactLengthReader) (out : Nat) :
    Except IoError (List UInt8) → ExactLengthReader → Prop
  | complete (filled : reader.remaining = 0) : Answer reader out (.ok []) reader
  | failed {source : IoError} (left : reader.remaining ≠ 0)
      (answered : reader.inner 0 = .error source) :
      Answer reader out (.error source) { reader with inner := reader.inner.later }
  | ended {bytes : List UInt8} (left : reader.remaining ≠ 0) (answered : reader.inner 0 = .ok bytes)
      (none : bytes.take (min reader.remaining out) = []) :
      Answer reader out (.ok (List.replicate (min reader.remaining out) 0)) { reader with
        inner := reader.inner.later
        remaining := reader.remaining - min reader.remaining out
        padded := reader.padded + min reader.remaining out }
  | delivered {bytes : List UInt8} (left : reader.remaining ≠ 0)
      (answered : reader.inner 0 = .ok bytes)
      (some : bytes.take (min reader.remaining out) ≠ []) :
      Answer reader out (.ok (bytes.take (min reader.remaining out))) { reader with
        inner := reader.inner.later
        remaining := reader.remaining - (bytes.take (min reader.remaining out)).length }

theorem Returns.inversion (returns : reader.Returns out answer next) (room : 0 < out) :
    Answer reader out answer next := by
  unfold Returns read at returns
  by_cases filled : reader.remaining = 0
  · rw [if_pos (.inl filled)] at returns
    cases returns
    exact .complete filled
  · rw [if_neg (by omega)] at returns
    dsimp only at returns
    cases answered : reader.inner 0 with
    | error source =>
      rw [answered] at returns
      cases returns
      exact .failed filled answered
    | ok bytes =>
      rw [answered] at returns
      dsimp only at returns
      split at returns
      next none =>
        cases returns
        exact .ended filled answered none
      next some =>
        cases returns
        exact .delivered filled answered some

/-- Copying reads to the end. -/
theorem readsToEnd_copyRounds {rounds : Nat} (room : ∀ index, 0 < sizes index)
    (enough : reader.remaining < rounds) :
    ReadsToEnd Returns sizes reader (copyRounds rounds sizes reader).1
      (copyRounds rounds sizes reader).2 := by
  induction rounds generalizing reader sizes with
  | zero => exact absurd enough (Nat.not_lt_zero _)
  | succ rounds ih =>
    unfold copyRounds
    rcases returned : reader.read (sizes 0) with ⟨answer, next⟩
    have returns : reader.Returns (sizes 0) answer next := returned
    have further (some : ∀ bytes, answer = .ok bytes → bytes ≠ [])
        (ok : ∃ bytes, answer = .ok bytes) : next.remaining < rounds := by
      have positive := room 0
      cases returns.inversion positive with
      | complete filled => exact absurd rfl (some [] rfl)
      | failed left answered =>
        obtain ⟨bytes, same⟩ := ok
        cases same
      | ended left answered none =>
        dsimp only
        omega
      | delivered left answered some' =>
        have length := List.length_pos_iff.mpr some'
        dsimp only
        omega
    cases answer with
    | error source => exact .failed returns
    | ok bytes =>
      dsimp only
      by_cases none : bytes = []
      · subst none
        rw [if_pos rfl]
        exact .ended returns
      · rw [if_neg none]
        exact .more returns none (ih (fun index => room (index + 1))
          (further (fun _ same => Except.ok.inj same ▸ none) ⟨_, rfl⟩))

theorem readsToEnd_copy (room : ∀ index, 0 < sizes index) (reader : ExactLengthReader) :
    ReadsToEnd Returns sizes reader (copy sizes reader).1 (copy sizes reader).2 :=
  readsToEnd_copyRounds room (Nat.lt_succ_self _)

/-! ## What a copy comes to -/

/-- What the reads of a file return while so many bytes of its member are left. A read
that returns nothing uses up its whole buffer. -/
def innerReads (inner : FileReads) (sizes : Nat → Nat) (left : Nat) : List (List UInt8) :=
  let cap := min left (sizes 0)
  if cap = 0 then []
  else
    match inner 0 with
    | .error _ => []
    | .ok bytes =>
      bytes.take cap :: innerReads inner.later (fun index => sizes (index + 1))
        (left - if bytes.take cap = [] then cap else (bytes.take cap).length)
termination_by left
decreasing_by
  split
  · omega
  next some =>
    have length := List.length_pos_iff.mpr some
    omega

def isSome (chunk : List UInt8) : Bool := !chunk.isEmpty

/-- The bytes before the first read that returns nothing. -/
def deliveredBytes (inner : FileReads) (sizes : Nat → Nat) (declared : Nat) : List UInt8 :=
  ((innerReads inner sizes declared).takeWhile isSome).flatten

/-- Once a read has returned nothing, no further read of the member returns a byte. -/
def StaysEnded (inner : FileReads) (sizes : Nat → Nat) (declared : Nat) : Prop :=
  ∀ chunk ∈ (innerReads inner sizes declared).dropWhile isSome, chunk = []

theorem innerReads_complete (inner : FileReads) (sizes : Nat → Nat) :
    innerReads inner sizes 0 = [] := by
  unfold innerReads
  exact if_pos (Nat.zero_min _)

theorem innerReads_of_ok {inner : FileReads} {left : Nat} {bytes : List UInt8}
    (answered : inner 0 = .ok bytes) (unfilled : left ≠ 0) (room : 0 < sizes 0) :
    innerReads inner sizes left = bytes.take (min left (sizes 0)) ::
      innerReads inner.later (fun index => sizes (index + 1))
        (left - if bytes.take (min left (sizes 0)) = [] then min left (sizes 0)
          else (bytes.take (min left (sizes 0))).length) := by
  rw [innerReads, if_neg (by omega), answered]

/-- What the reads of a file return, as a member of so many bytes with so much padding
before and behind it. -/
structure Filled (chunks : List (List UInt8)) (left padded : Nat) (data : List UInt8)
    (padded' : Nat) : Prop where
  length : data.length = left
  padding : padded' + chunks.flatten.length = padded + left
  zeros : (∀ chunk ∈ chunks, chunk = []) → data = List.replicate left 0
  front : ∃ tail, data = (chunks.takeWhile isSome).flatten ++ tail ∧
    ((∀ chunk ∈ chunks.dropWhile isSome, chunk = []) → tail = List.replicate tail.length 0)

section

variable {chunks : List (List UInt8)} {left padded padded' cap : Nat} {bytes data : List UInt8}

theorem Filled.complete (padded : Nat) : Filled [] 0 padded [] padded :=
  ⟨rfl, rfl, fun _ => rfl, [], rfl, fun _ => rfl⟩

/-- A buffer of zeros in front. -/
theorem Filled.ended (inside : cap ≤ left)
    (filled : Filled chunks (left - cap) (padded + cap) data padded') :
    Filled ([] :: chunks) left padded (List.replicate cap 0 ++ data) padded' := by
  obtain ⟨length, padding, zeros, -⟩ := filled
  have all (ended : ∀ chunk ∈ chunks, chunk = []) :
      List.replicate cap 0 ++ data = List.replicate left (0 : UInt8) := by
    rw [zeros ended, List.replicate_append_replicate, Nat.add_sub_cancel' inside]
  have total : (List.replicate cap (0 : UInt8) ++ data).length = left := by
    rw [List.length_append, List.length_replicate]
    omega
  refine ⟨total, ?_, fun ended => all fun chunk member => ended chunk (.tail _ member), _, rfl,
    fun ended => ?_⟩
  · rw [List.flatten_cons, List.nil_append]
    omega
  · change List.replicate cap 0 ++ data = List.replicate (List.replicate cap 0 ++ data).length 0
    rw [total]
    exact all fun chunk member => ended chunk (.tail _ member)

/-- Some bytes in front. -/
theorem Filled.delivered (some : bytes ≠ []) (inside : bytes.length ≤ left)
    (filled : Filled chunks (left - bytes.length) padded data padded') :
    Filled (bytes :: chunks) left padded (bytes ++ data) padded' := by
  obtain ⟨length, padding, -, tail, rfl, zeros⟩ := filled
  have isSome : isSome bytes = true := by
    cases bytes with
    | nil => exact absurd rfl some
    | cons byte rest => rfl
  refine ⟨?_, ?_, fun ended => absurd (ended bytes (.head _)) some, tail, ?_, fun ended => ?_⟩
  · rw [List.length_append]
    omega
  · rw [List.flatten_cons, List.length_append]
    omega
  · rw [List.takeWhile_cons_of_pos isSome, List.flatten_cons, List.append_assoc]
  · rw [List.dropWhile_cons_of_pos isSome] at ended
    exact zeros ended

/-- The padding is counted, and follows the first bytes, exactly when nothing is
returned any more once a read has returned nothing. -/
theorem Filled.padded_iff (filled : Filled chunks left 0 data padded') :
    (∃ zeros, data = (chunks.takeWhile isSome).flatten ++ List.replicate zeros 0 ∧
      padded' = zeros) ↔ ∀ chunk ∈ chunks.dropWhile isSome, chunk = [] := by
  obtain ⟨length, padding, -, tail, same, zeros⟩ := filled
  have parts : chunks.flatten.length = (chunks.takeWhile isSome).flatten.length +
      (chunks.dropWhile isSome).flatten.length := by
    rw [← List.length_append, ← List.flatten_append, List.takeWhile_append_dropWhile]
  constructor
  · rintro ⟨count, padded, rfl⟩
    rw [padded, List.length_append, List.length_replicate] at length
    have none : (chunks.dropWhile isSome).flatten = [] := List.length_eq_zero_iff.mp (by omega)
    exact List.flatten_eq_nil_iff.mp none
  · intro ended
    have none : (chunks.dropWhile isSome).flatten = [] := List.flatten_eq_nil_iff.mpr ended
    rw [none, List.length_nil] at parts
    rw [same, List.length_append] at length
    refine ⟨tail.length, ?_, by omega⟩
    rw [← zeros ended]
    exact same

end

theorem filled_of_readsToEnd (room : ∀ index, 0 < sizes index) {data : List UInt8}
    (reads : ReadsToEnd Returns sizes reader (.ok data) final) :
    Filled (innerReads reader.inner sizes reader.remaining) reader.remaining reader.padded data
      final.padded := by
  generalize same : (Except.ok data : Except IoError (List UInt8)) = outcome at reads
  induction reads generalizing data with
  | @ended sizes reader final returns =>
    cases same
    have inverted := returns.inversion (room 0)
    generalize eq : (Except.ok [] : Except IoError (List UInt8)) = answer at inverted
    cases inverted with
    | complete filled =>
      rw [filled, innerReads_complete]
      exact .complete _
    | failed left answered => cases eq
    | ended left answered none =>
      have length := congrArg List.length (Except.ok.inj eq)
      rw [List.length_replicate, List.length_nil] at length
      have positive := room 0
      omega
    | delivered left answered some => exact absurd (Except.ok.inj eq).symm some
  | failed returns => cases same
  | @more sizes reader next final bytes outcome returns some rest ih =>
    cases outcome with
    | error source => cases same
    | ok later =>
      cases same
      have filled := ih (fun index => room (index + 1)) rfl
      have inverted := returns.inversion (room 0)
      generalize eq : (Except.ok bytes : Except IoError (List UInt8)) = answer at inverted
      cases inverted with
      | complete filled => exact absurd (Except.ok.inj eq) some
      | failed left answered => cases eq
      | ended left answered none =>
        cases Except.ok.inj eq
        rw [innerReads_of_ok answered left (room 0), none, if_pos rfl]
        exact .ended (Nat.min_le_left _ _) filled
      | @delivered answer left answered some =>
        cases Except.ok.inj eq
        rw [innerReads_of_ok answered left (room 0), if_neg some]
        refine .delivered some ?_ filled
        rw [List.length_take]
        omega

/-- **A copied member.** It has the declared length. It is what the file delivered
before the first read that returned nothing, followed by zeros which are counted as
padding, if and only if no read of the member behind that one returned a byte. -/
theorem copy_spec (room : ∀ index, 0 < sizes index) {inner : FileReads} {declared : Nat}
    {data : List UInt8} (copied : copy sizes (new inner declared) = (.ok data, final)) :
    data.length = declared ∧
      ((∃ zeros, data = deliveredBytes inner sizes declared ++ List.replicate zeros 0 ∧
        final.padded = zeros) ↔ StaysEnded inner sizes declared) := by
  have reads := readsToEnd_copy room (new inner declared)
  rw [copied] at reads
  have filled := filled_of_readsToEnd room reads
  exact ⟨filled.length, filled.padded_iff⟩

end ExactLengthReader

end ZManager
