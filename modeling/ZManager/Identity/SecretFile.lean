import ZManager.Foundation.FileSystem
import ZManager.Foundation.Program
import Mathlib.Data.List.Nodup

/-! # Secret files written by several callers at once

A secret is written to a temporary file next to its path, which is then renamed over the path.
The temporary file is named after the process, the clock and the attempt. Each operation on the
directory is one step; the steps of the calls interleave in any order.
-/

namespace ZManager.SecretFile

/-- The names of a directory and the files behind them; a file that is open stays when its name
is gone. -/
structure Directory where
  entries : Text → Option Nat
  contents : Nat → List UInt8
  next : Nat
  allocated : ∀ name file, entries name = some file → file < next

namespace Directory

/-- What a name holds. -/
def read (directory : Directory) (name : Text) : Option (List UInt8) :=
  (directory.entries name).map directory.contents

def create (directory : Directory) (name : Text) : Directory where
  entries := Function.update directory.entries name (some directory.next)
  contents := Function.update directory.contents directory.next []
  next := directory.next + 1
  allocated other file here := by
    rw [Function.update_apply] at here
    split at here
    · cases here
      exact Nat.lt_succ_self _
    · exact (directory.allocated other file here).trans (Nat.lt_succ_self _)

def write (directory : Directory) (file : Nat) (bytes : List UInt8) : Directory :=
  { directory with contents := Function.update directory.contents file bytes }

def unlink (directory : Directory) (name : Text) : Directory where
  entries := Function.update directory.entries name none
  contents := directory.contents
  next := directory.next
  allocated other file here := by
    rw [Function.update_apply] at here
    split at here
    · cases here
    · exact directory.allocated other file here

def rename (directory : Directory) (source target : Text) : Directory where
  entries := Function.update (Function.update directory.entries source none) target
    (directory.entries source)
  contents := directory.contents
  next := directory.next
  allocated other file here := by
    rw [Function.update_apply] at here
    split at here
    · exact directory.allocated source file here
    · rw [Function.update_apply] at here
      split at here
      · cases here
      · exact directory.allocated other file here

end Directory

/-! ## The writer -/

/-- The operations that are single steps. -/
inductive Op where
  | createNew (name : Text)
  | write (file : Nat) (bytes : List UInt8)
  | setPermissions (name : Text)
  | rename (source target : Text)
  | removeFile (name : Text)

abbrev Answer : Op → Type
  | .createNew _ => Except IoErrorKind Nat
  | .write _ _ => Unit
  | .setPermissions _ | .rename _ _ | .removeFile _ => Except IoErrorKind Unit

/-- What an operation answers and leaves. -/
def serve (directory : Directory) : (op : Op) → Answer op × Directory
  | .createNew name =>
    if (directory.entries name).isSome then (.error .alreadyExists, directory)
    else (.ok directory.next, directory.create name)
  | .write file bytes => ((), directory.write file bytes)
  | .setPermissions name =>
    if (directory.entries name).isSome then (.ok (), directory)
    else (.error .notFound, directory)
  | .rename source target =>
    if (directory.entries source).isSome then (.ok (), directory.rename source target)
    else (.error .notFound, directory)
  | .removeFile name =>
    if (directory.entries name).isSome then (.ok (), directory.unlink name)
    else (.error .notFound, directory)

/-- What an operation does to the directory. -/
def Effect (_client : Nat) (before : Directory) (op : Op) (answer : Answer op)
    (after : Directory) : Prop :=
  serve before op = (answer, after)

abbrev Writer := Program Op Answer (Except IoErrorKind Unit)

def createNew (name : Text) : Program Op Answer (Except IoErrorKind Nat) :=
  Program.perform (Op.createNew name)

def write (file : Nat) (bytes : List UInt8) : Program Op Answer Unit :=
  Program.perform (Op.write file bytes)

def setPermissions (name : Text) : Writer := Program.perform (Op.setPermissions name)

def rename (source target : Text) : Writer := Program.perform (Op.rename source target)

def removeFile (name : Text) : Writer := Program.perform (Op.removeFile name)

def maxTempAttempts : Nat := 100

def temporaryName (fileName : Text) (processId now attempt : Nat) : Text :=
  fileName ++ ".tmp-".toList ++ Nat.toDigits 10 processId ++ '-' :: Nat.toDigits 10 now ++
    '-' :: Nat.toDigits 10 attempt

/-- One attempt, up to its result. -/
def writeTemporary (temporary fileName : Text) (bytes : List UInt8) : Writer := do
  match ← createNew temporary with
  | .error kind => return .error kind
  | .ok file =>
    write file bytes
    match ← setPermissions temporary with
    | .error kind => return .error kind
    | .ok () => rename temporary fileName

/-- The attempts that are left. -/
def writeAttempts (fileName : Text) (processId now : Nat) (bytes : List UInt8) : Nat → Writer
  | 0 => return .error .alreadyExists
  | left + 1 => do
      let temporary := temporaryName fileName processId now (maxTempAttempts - (left + 1))
      match ← writeTemporary temporary fileName bytes with
      | .ok () => return .ok ()
      | .error kind =>
        let _ ← removeFile temporary
        if kind = .alreadyExists then writeAttempts fileName processId now bytes left
        else return .error kind

/-- `write_atomic_secret_file` of the path with the name, with the clock as it is read. -/
def writeAtomicSecretFile (fileName : Text) (processId now : Nat) (bytes : List UInt8) : Writer :=
  writeAttempts fileName processId now bytes maxTempAttempts

/-! ## Names -/

/-- Numbers with a dash between them are told apart. -/
theorem toDigits_dash_inj {one two other another : Nat}
    (same : Nat.toDigits 10 one ++ '-' :: Nat.toDigits 10 two =
      Nat.toDigits 10 other ++ '-' :: Nat.toDigits 10 another) : one = other ∧ two = another := by
  have plain (number : Nat) : ∀ digit ∈ Nat.toDigits 10 number, (digit != '-') = true := by
    intro digit member
    have isDigit := Text.isDigit_of_mem_decimal member
    refine bne_iff_ne.mpr ?_
    rintro rfl
    revert isDigit
    decide
  have cut (number : Nat) (rest : Text) :
      (Nat.toDigits 10 number ++ '-' :: rest).span (· != '-') =
        (Nat.toDigits 10 number, '-' :: rest) := by
    rw [List.span_eq_takeWhile_dropWhile, List.takeWhile_append_of_pos (plain number),
      List.dropWhile_append_of_pos (plain number)]
    simp
  have split := congrArg (List.span (· != '-')) same
  rw [cut, cut] at split
  obtain ⟨first, second⟩ := Prod.mk.inj split
  refine ⟨?_, ?_⟩
  · rw [← Nat.ofDigitChars_ten_toDigits (n := one), first, Nat.ofDigitChars_ten_toDigits]
  · rw [← Nat.ofDigitChars_ten_toDigits (n := two), (List.cons.inj second).2,
      Nat.ofDigitChars_ten_toDigits]

theorem temporaryName_inj {fileName : Text} {processId now attempt now' attempt' : Nat}
    (same : temporaryName fileName processId now attempt =
      temporaryName fileName processId now' attempt') : now = now' ∧ attempt = attempt' := by
  unfold temporaryName at same
  simp only [List.append_assoc, List.cons_append] at same
  exact toDigits_dash_inj (List.cons.inj (List.append_cancel_left
    (List.append_cancel_left (List.append_cancel_left same)))).2

theorem temporaryName_ne (fileName : Text) (processId now attempt : Nat) :
    temporaryName fileName processId now attempt ≠ fileName := by
  intro same
  have length := congrArg List.length same
  unfold temporaryName at length
  simp only [List.append_assoc, List.length_append, List.length_cons] at length
  omega

/-! ## Calls in any order -/

/-- One call: the time it reads off the clock and the bytes it writes. -/
structure Call where
  clock : Nat
  bytes : List UInt8

/-- Each call of the list is made once, by a client of its own. -/
def Starts (fileName : Text) (processId : Nat) (calls : List Call) (client : Nat)
    (program : Writer) : Prop :=
  ∃ call, calls[client]? = some call ∧
    program = writeAtomicSecretFile fileName processId call.clock call.bytes

/-- No temporary file of this process stands next to the path. -/
def Clean (fileName : Text) (processId : Nat) (directory : Directory) : Prop :=
  ∀ now attempt, directory.entries (temporaryName fileName processId now attempt) = none

/-- What is expected of a state that is reached: calls return `Ok`, the path holds what it held
or all that one of the calls writes, and nothing is left when all have returned. -/
structure Undisturbed (fileName : Text) (processId : Nat) (calls : List Call) (start : Directory)
    (current : Directory) (clients : Nat → Option Writer) : Prop where
  returns : ∀ client result, clients client = some (.done result) → result = .ok ()
  complete : current.read fileName = start.read fileName ∨
    ∃ call ∈ calls, current.read fileName = some call.bytes
  clean : (∀ client < calls.length, ∃ result, clients client = some (.done result)) →
    Clean fileName processId current

/-! ## Calls that read different times -/

section

variable (fileName : Text) (processId : Nat) (calls : List Call) (start : Directory)

/-- A temporary file has one name, and only the first attempt of a call has one. -/
structure Inv (current : Directory) : Prop where
  lone : ∀ now attempt name file,
    current.entries (temporaryName fileName processId now attempt) = some file →
    current.entries name = some file → name = temporaryName fileName processId now attempt
  complete : current.read fileName = start.read fileName ∨
    ∃ call ∈ calls, current.read fileName = some call.bytes
  owned : ∀ now attempt file,
    current.entries (temporaryName fileName processId now attempt) = some file →
    attempt = 0 ∧ ∃ call ∈ calls, call.clock = now

/-- The others leave the temporary file of a call alone. -/
def Rely (client : Nat) (before after : Directory) : Prop :=
  ∀ call, calls[client]? = some call →
    after.entries (temporaryName fileName processId call.clock 0) =
      before.entries (temporaryName fileName processId call.clock 0) ∧
    ∀ file, before.entries (temporaryName fileName processId call.clock 0) = some file →
      after.contents file = before.contents file

/-- A call leaves all other temporary files alone. -/
def Guarantee (client : Nat) (before after : Directory) : Prop :=
  ∃ call, calls[client]? = some call ∧ ∀ now attempt, (now, attempt) ≠ (call.clock, 0) →
    after.entries (temporaryName fileName processId now attempt) =
      before.entries (temporaryName fileName processId now attempt) ∧
    ∀ file, before.entries (temporaryName fileName processId now attempt) = some file →
      after.contents file = before.contents file

def writers : Protocol Op Answer Directory where
  effect := Effect
  inv := Inv fileName processId calls start
  rely := Rely fileName processId calls
  guarantee := Guarantee fileName processId calls

variable {fileName processId calls start} {client : Nat} {call : Call}

theorem compatible (distinct : (calls.map Call.clock).Nodup) (one two : Nat)
    (before after : Directory) (apart : one ≠ two)
    (step : Guarantee fileName processId calls one before after) :
    Rely fileName processId calls two before after := by
  obtain ⟨call, here, others⟩ := step
  intro other there
  apply others
  intro same
  apply apart
  have clocks : call.clock = other.clock := (Prod.mk.inj same).1.symm
  refine (List.getElem?_inj ?_ distinct).mp ?_
  · rw [List.length_map]
    exact (List.getElem?_eq_some_iff.mp here).1
  · rw [List.getElem?_map, List.getElem?_map, here, there, Option.map_some, Option.map_some,
      clocks]

/-- What a call knows of its temporary file is not disturbed. -/
theorem stable_entry (here : calls[client]? = some call) (expected : Option Nat) :
    (writers fileName processId calls start).Stable client fun directory =>
      directory.entries (temporaryName fileName processId call.clock 0) = expected := by
  intro before after _ _ step known
  exact (step call here).1.trans known

theorem stable_contents (here : calls[client]? = some call) (file : Nat) (bytes : List UInt8) :
    (writers fileName processId calls start).Stable client fun directory =>
      directory.entries (temporaryName fileName processId call.clock 0) = some file ∧
        directory.contents file = bytes := by
  intro before after _ _ step known
  obtain ⟨entry, contents⟩ := step call here
  exact ⟨entry.trans known.1, (contents file known.1).trans known.2⟩

theorem name_ne {now attempt clock : Nat} (apart : (now, attempt) ≠ (clock, 0)) :
    temporaryName fileName processId now attempt ≠ temporaryName fileName processId clock 0 := by
  intro same
  obtain ⟨rfl, rfl⟩ := temporaryName_inj same
  exact apart rfl

section

variable (here : calls[client]? = some call)
include here

/-- **The temporary file is made.** -/
theorem spec_createNew :
    (writers fileName processId calls start).Spec client
      (fun directory =>
        directory.entries (temporaryName fileName processId call.clock 0) = none)
      (createNew (temporaryName fileName processId call.clock 0))
      (fun answer directory => ∃ file, answer = .ok file ∧
        directory.entries (temporaryName fileName processId call.clock 0) = some file) := by
  refine Protocol.Spec.perform (fun answer => ?_) fun before answer after inv absent made => ?_
  · intro before after kept kept' step known
    obtain ⟨file, rfl, entry⟩ := known
    exact ⟨file, rfl, stable_entry here (some file) before after kept kept' step entry⟩
  · change serve _ _ = _ at made
    rw [serve, absent] at made
    cases made
    have fresh {name : Text} : before.entries name ≠ some before.next := fun used =>
      Nat.lt_irrefl _ (before.allocated name _ used)
    refine ⟨⟨?_, ?_, ?_⟩, ⟨call, here, fun now attempt apart => ⟨?_, fun file used => ?_⟩⟩,
      before.next, rfl, Function.update_self _ _ _⟩
    · intro now attempt name file one two
      unfold Directory.create at one two
      dsimp only at one two
      rw [Function.update_apply] at one two
      split at one
      next same =>
        split at two
        next same' => rw [same, same']
        next => exact absurd (two.trans one.symm) fresh
      next =>
        split at two
        next => exact absurd (one.trans two.symm) fresh
        next => exact inv.lone now attempt name file one two
    · have kept : (before.create (temporaryName fileName processId call.clock 0)).read fileName =
          before.read fileName := by
        unfold Directory.read Directory.create
        dsimp only
        rw [Function.update_of_ne (temporaryName_ne _ _ _ _).symm]
        cases used : before.entries fileName with
        | none => rfl
        | some file =>
          have other : file ≠ before.next := fun same => fresh (same ▸ used)
          rw [Option.map_some, Option.map_some, Function.update_of_ne other]
      rw [kept]
      exact inv.complete
    · intro now attempt file used
      by_cases same : (now, attempt) = (call.clock, 0)
      · obtain ⟨rfl, rfl⟩ := Prod.mk.inj same
        exact ⟨rfl, call, List.mem_of_getElem? here, rfl⟩
      · unfold Directory.create at used
        dsimp only at used
        rw [Function.update_of_ne (name_ne same)] at used
        exact inv.owned now attempt file used
    · unfold Directory.create
      dsimp only
      rw [Function.update_of_ne (name_ne apart)]
    · unfold Directory.create
      dsimp only
      have other : file ≠ before.next := fun same => fresh (same ▸ used)
      rw [Function.update_of_ne other]

/-- **The bytes are written** to the file that was made. -/
theorem spec_write (file : Nat) (bytes : List UInt8) :
    (writers fileName processId calls start).Spec client
      (fun directory =>
        directory.entries (temporaryName fileName processId call.clock 0) = some file)
      (write file bytes)
      (fun _ directory =>
        directory.entries (temporaryName fileName processId call.clock 0) = some file ∧
          directory.contents file = bytes) := by
  refine Protocol.Spec.perform (fun _ => stable_contents here file bytes)
    fun before answer after inv entry made => ?_
  change serve _ _ = _ at made
  rw [serve] at made
  cases made
  have other {name : Text} (apart : name ≠ temporaryName fileName processId call.clock 0)
      {used : Nat} (named : before.entries name = some used) : used ≠ file := fun same =>
    apart (inv.lone call.clock 0 name file entry (same ▸ named))
  refine ⟨⟨inv.lone, ?_, inv.owned⟩, ⟨call, here, fun now attempt apart => ⟨rfl, ?_⟩⟩, entry,
    Function.update_self _ _ _⟩
  · have kept : (before.write file bytes).read fileName = before.read fileName := by
      unfold Directory.read Directory.write
      dsimp only
      cases named : before.entries fileName with
      | none => rfl
      | some used =>
        rw [Option.map_some, Option.map_some,
          Function.update_of_ne (other (temporaryName_ne _ _ _ _).symm named)]
    rw [kept]
    exact inv.complete
  · intro used named
    unfold Directory.write
    dsimp only
    rw [Function.update_of_ne (other (name_ne apart) named)]

/-- **The permissions are set** by the name, which is still there. -/
theorem spec_setPermissions (file : Nat) (bytes : List UInt8) :
    (writers fileName processId calls start).Spec client
      (fun directory =>
        directory.entries (temporaryName fileName processId call.clock 0) = some file ∧
          directory.contents file = bytes)
      (setPermissions (temporaryName fileName processId call.clock 0))
      (fun answer directory => answer = .ok () ∧
        directory.entries (temporaryName fileName processId call.clock 0) = some file ∧
          directory.contents file = bytes) := by
  refine Protocol.Spec.perform (fun answer => ?_) fun before answer after inv known made => ?_
  · exact (Protocol.Stable.const _).and (stable_contents here file bytes)
  · change serve _ _ = _ at made
    rw [serve, known.1] at made
    cases made
    exact ⟨inv, ⟨call, here, fun _ _ _ => ⟨rfl, fun _ _ => rfl⟩⟩, rfl, known⟩

/-- **The path gets the complete file.** -/
theorem spec_rename (file : Nat) :
    (writers fileName processId calls start).Spec client
      (fun directory =>
        directory.entries (temporaryName fileName processId call.clock 0) = some file ∧
          directory.contents file = call.bytes)
      (rename (temporaryName fileName processId call.clock 0) fileName)
      (fun answer directory => answer = .ok () ∧
        directory.entries (temporaryName fileName processId call.clock 0) = none) := by
  refine Protocol.Spec.perform (fun answer => ?_) fun before answer after inv known made => ?_
  · exact (Protocol.Stable.const _).and (stable_entry here none)
  · change serve _ _ = _ at made
    obtain ⟨entry, contents⟩ := known
    rw [serve, entry] at made
    cases made
    have renamed (now attempt : Nat) : (before.rename
        (temporaryName fileName processId call.clock 0) fileName).entries
          (temporaryName fileName processId now attempt) =
        if (now, attempt) = (call.clock, 0) then none
        else before.entries (temporaryName fileName processId now attempt) := by
      unfold Directory.rename
      dsimp only
      rw [Function.update_of_ne (temporaryName_ne _ _ _ _)]
      split
      next same =>
        obtain ⟨rfl, rfl⟩ := Prod.mk.inj same
        exact Function.update_self _ _ _
      next apart => exact Function.update_of_ne (name_ne apart) _ _
    refine ⟨⟨?_, ?_, ?_⟩, ⟨call, here, fun now attempt apart => ⟨?_, fun _ _ => rfl⟩⟩, rfl, ?_⟩
    · intro now attempt name used one two
      rw [renamed] at one
      split at one
      next => cases one
      next apart =>
        unfold Directory.rename at two
        dsimp only at two
        rw [Function.update_apply] at two
        split at two
        next =>
          -- the file of this call had no other name
          cases two.symm.trans entry
          exact absurd (inv.lone call.clock 0 _ _ entry one) (name_ne apart)
        next =>
          rw [Function.update_apply] at two
          split at two
          next => cases two
          next => exact inv.lone now attempt name used one two
    · refine .inr ⟨call, List.mem_of_getElem? here, ?_⟩
      unfold Directory.read Directory.rename
      dsimp only
      rw [Function.update_self, entry, Option.map_some, contents]
    · intro now attempt used one
      rw [renamed] at one
      split at one
      next => cases one
      next => exact inv.owned now attempt used one
    · rw [renamed, if_neg apart]
    · rw [renamed, if_pos rfl]

/-- **A call** succeeds at its first attempt and leaves no temporary file. -/
theorem spec_writeAtomicSecretFile :
    (writers fileName processId calls start).Spec client
      (fun directory =>
        directory.entries (temporaryName fileName processId call.clock 0) = none)
      (writeAtomicSecretFile fileName processId call.clock call.bytes)
      (fun answer directory => answer = .ok () ∧
        directory.entries (temporaryName fileName processId call.clock 0) = none) := by
  have attempt : (writers fileName processId calls start).Spec client
      (fun directory =>
        directory.entries (temporaryName fileName processId call.clock 0) = none)
      (writeTemporary (temporaryName fileName processId call.clock 0) fileName call.bytes)
      (fun answer directory => answer = .ok () ∧
        directory.entries (temporaryName fileName processId call.clock 0) = none) := by
    apply (spec_createNew here).bind
    rintro (kind | file)
    · refine Protocol.Spec.of_fact (fun _ _ known => ?_) False.elim
      obtain ⟨_, ⟨⟩, -⟩ := known
    · refine Protocol.Spec.weaken (?_ : (writers fileName processId calls start).Spec client
        (fun directory => directory.entries
          (temporaryName fileName processId call.clock 0) = some file) _ _) fun _ _ known => ?_
      · apply (spec_write here file call.bytes).bind
        intro _
        apply (spec_setPermissions here file call.bytes).bind
        rintro (kind | done)
        · exact Protocol.Spec.of_fact (fun _ _ known => known.1) nofun
        · exact (spec_rename here file).weaken fun _ _ known => known.2
      · obtain ⟨_, ⟨⟩, entry⟩ := known
        exact entry
  unfold writeAtomicSecretFile
  change Protocol.Spec _ client _ (writeAttempts fileName processId call.clock call.bytes
    (99 + 1)) _
  rw [writeAttempts]
  apply attempt.bind
  rintro (kind | done)
  · exact Protocol.Spec.of_fact (fun _ _ known => known.1) nofun
  · exact Protocol.Spec.pure fun _ _ known => known

end

theorem Inv.of_clean (clean : Clean fileName processId start) :
    Inv fileName processId calls start start where
  lone now attempt name file used := by
    rw [clean now attempt] at used
    cases used
  complete := .inl rfl
  owned now attempt file used := by
    rw [clean now attempt] at used
    cases used

/-- Calls that read different times do not disturb each other. -/
theorem undisturbed_of_distinct (distinct : (calls.map Call.clock).Nodup)
    (clean : Clean fileName processId start) {current : Directory}
    {clients : Nat → Option Writer}
    (reached : Pool.Reaches Effect (Starts fileName processId calls) start current clients) :
    Undisturbed fileName processId calls start current clients := by
  let left (client : Nat) (directory : Directory) : Prop := ∀ call, calls[client]? = some call →
    directory.entries (temporaryName fileName processId call.clock 0) = none
  have kept := @Pool.promised _ _ _ _ (Starts fileName processId calls)
    (writers fileName processId calls start) left
    (fun client answer directory => answer = .ok () ∧ left client directory)
    (compatible distinct)
    (fun client before after _ _ step known call here =>
      (step call here).1.trans (known call here))
    (fun client program ⟨call, here, same⟩ => by
      subst same
      refine ((spec_writeAtomicSecretFile here).weaken fun _ _ known => known call here).conseq
        fun answer directory _ known => ⟨known.1, fun other there => ?_⟩
      cases here.symm.trans there
      exact known.2)
    start current clients (.of_clean clean) (fun _ call _ => clean call.clock 0) reached
  have settled {client : Nat} {result : Except IoErrorKind Unit}
      (done : clients client = some (.done result)) :
      result = .ok () ∧ left client current :=
    Pool.Promised.done kept.1 (done ▸ kept.2 client)
  refine ⟨fun client result done => (settled done).1, kept.1.complete, fun all now attempt => ?_⟩
  cases used : current.entries (temporaryName fileName processId now attempt) with
  | none => rfl
  | some file =>
    obtain ⟨rfl, call, member, rfl⟩ := kept.1.owned now attempt file used
    obtain ⟨client, here⟩ := List.mem_iff_getElem?.mp member
    obtain ⟨result, done⟩ := all client (List.getElem?_eq_some_iff.mp here).1
    cases ((settled done).2 call here).symm.trans used

end

/-! ## Calls that read the same time -/

section

variable {fileName : Text} {processId : Nat} {calls : List Call} {start current next : Directory}
  {first second : Nat}

/-- A state in which two clients have got so far. -/
def Reached (fileName : Text) (processId : Nat) (calls : List Call) (start : Directory)
    (first second : Nat) (current : Directory) (one two : Writer) : Prop :=
  ∃ clients, Pool.Reaches Effect (Starts fileName processId calls) start current clients ∧
    clients first = some one ∧ clients second = some two

theorem Reached.symm {one two : Writer}
    (reached : Reached fileName processId calls start first second current one two) :
    Reached fileName processId calls start second first current two one := by
  obtain ⟨clients, reached, here, there⟩ := reached
  exact ⟨clients, reached, there, here⟩

/-- The first client makes its next operation. -/
theorem Reached.act {op : Op} {rest : Answer op → Writer} {two : Writer} {answer : Answer op}
    (reached : Reached fileName processId calls start first second current (.ask op rest) two)
    (apart : first ≠ second) (served : serve current op = (answer, next)) :
    Reached fileName processId calls start first second next (rest answer) two := by
  obtain ⟨clients, reached, here, there⟩ := reached
  refine ⟨_, reached.act here served, Function.update_self _ _ _, ?_⟩
  rw [Function.update_of_ne (Ne.symm apart)]
  exact there

def empty : Directory := ⟨fun _ => none, fun _ => [], 0, nofun⟩

/-- **A call loses its temporary file** to another one that reads the same time: that one finds
the name taken and removes what has it. -/
theorem exists_failed_call {one two : Call} (apart : first ≠ second)
    (here : calls[first]? = some one) (there : calls[second]? = some two)
    (same : one.clock = two.clock) :
    ∃ current clients, Pool.Reaches Effect (Starts fileName processId calls) empty current
      clients ∧ clients first = some (.done (.error .notFound)) := by
  have started : Reached fileName processId calls empty first second empty
      (writeAtomicSecretFile fileName processId one.clock one.bytes)
      (writeAtomicSecretFile fileName processId two.clock two.bytes) := by
    refine ⟨_, ((Pool.Reaches.initial.start rfl ⟨one, here, rfl⟩).start ?_ ⟨two, there, rfl⟩),
      ?_, Function.update_self _ _ _⟩
    · rw [Function.update_of_ne (Ne.symm apart)]
    · rw [Function.update_of_ne apart, Function.update_self]
  rw [← same] at started
  let temporary := temporaryName fileName processId one.clock 0
  have occupied : (empty.create temporary).entries temporary = some 0 := Function.update_self _ _ _
  have taken : serve (empty.create temporary) (.createNew temporary) =
      (.error .alreadyExists, empty.create temporary) :=
    if_pos (by
      rw [occupied]
      rfl)
  have removed : serve (empty.create temporary) (.removeFile temporary) =
      (.ok (), (empty.create temporary).unlink temporary) :=
    if_pos (by
      rw [occupied]
      rfl)
  let after := ((empty.create temporary).unlink temporary).write 0 one.bytes
  have gone : after.entries temporary = none := Function.update_self _ _ _
  have lost : serve after (.setPermissions temporary) = (.error .notFound, after) :=
    if_neg (by
      rw [gone]
      exact Bool.false_ne_true)
  have nothing : serve after (.removeFile temporary) = (.error .notFound, after) :=
    if_neg (by
      rw [gone]
      exact Bool.false_ne_true)
  -- one makes the file, two finds it and removes it, one misses it
  have made := started.act apart (show serve empty (.createNew temporary) = (.ok 0, _) from rfl)
  have met := (made.symm.act apart.symm taken).act apart.symm removed
  have written := met.symm.act apart (show serve _ (.write 0 one.bytes) = ((), after) from rfl)
  have failed := (written.act apart lost).act apart nothing
  obtain ⟨clients, reached, ended, -⟩ := failed
  exact ⟨after, clients, reached, ended⟩

end

/-- **Calls do not disturb each other** in any order of their steps exactly when no two of them
read the same time. -/
theorem writers_undisturbed_iff (fileName : Text) (processId : Nat) (calls : List Call) :
    (∀ start, Clean fileName processId start → ∀ current clients,
      Pool.Reaches Effect (Starts fileName processId calls) start current clients →
        Undisturbed fileName processId calls start current clients) ↔
      (calls.map Call.clock).Nodup := by
  constructor
  · intro undisturbed
    by_contra shared
    obtain ⟨first, second, clock, before, here, there⟩ :
        ∃ first second clock, first < second ∧ (calls.map Call.clock)[first]? = some clock ∧
          (calls.map Call.clock)[second]? = some clock := by
      rw [List.nodup_iff_getElem?_ne_getElem?] at shared
      push Not at shared
      obtain ⟨first, second, before, bound, same⟩ := shared
      exact ⟨first, second, _, before, same.trans (List.getElem?_eq_getElem bound),
        List.getElem?_eq_getElem bound⟩
    rw [List.getElem?_map, Option.map_eq_some_iff] at here there
    obtain ⟨one, here, rfl⟩ := here
    obtain ⟨two, there, same⟩ := there
    obtain ⟨current, clients, reached, failed⟩ :=
      exists_failed_call before.ne here there same.symm
    cases (undisturbed empty (fun _ _ => rfl) current clients reached).returns first _ failed
  · intro distinct start clean current clients reached
    exact undisturbed_of_distinct distinct clean reached

/-- Two calls at the same nanosecond. -/
theorem writers_at_once_disturb : ¬∀ (fileName : Text) (processId : Nat) (calls : List Call),
    calls.length < 100 → ∀ start, Clean fileName processId start → ∀ current clients,
      Pool.Reaches Effect (Starts fileName processId calls) start current clients →
        Undisturbed fileName processId calls start current clients := by
  intro all
  obtain ⟨current, clients, reached, failed⟩ := @exists_failed_call "key".toList 7
    [⟨5, [1]⟩, ⟨5, [2]⟩] 0 1 ⟨5, [1]⟩ ⟨5, [2]⟩ Nat.zero_ne_one rfl rfl rfl
  cases (all "key".toList 7 _ (by decide) empty (fun _ _ => rfl) current clients
    reached).returns 0 _ failed

end ZManager.SecretFile
