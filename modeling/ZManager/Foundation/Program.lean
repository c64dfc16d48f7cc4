import Mathlib.Logic.Function.Basic
import Mathlib.Tactic.SplitIfs

/-! # Programs that ask a shared world

A program asks the world one operation at a time and goes on with the answer.
Several clients run programs against one world; their operations interleave in
any order, an operation may have several possible answers, and a client may stop
for good at any point.

`Spec` is the rely-guarantee specification of a program: after each of its own
operations the invariant holds, the step is within the client's guarantee, and
there is an assertion that the other clients' steps do not disturb from which
the rest of the program goes on. `Pool.invariant` is the rule for all clients
together.
-/

namespace ZManager

/-- A program: a value, or an operation and what follows each answer. -/
inductive Program (Op : Type) (Answer : Op → Type) (α : Type) : Type
  | done (value : α)
  | ask (op : Op) (next : Answer op → Program Op Answer α)

namespace Program

variable {Op : Type} {Answer : Op → Type} {α β : Type}

/-- The first program, then the one that its value selects. -/
protected def bind (first : Program Op Answer α) (second : α → Program Op Answer β) :
    Program Op Answer β :=
  match first with
  | .done value => second value
  | .ask op next => .ask op fun answer => (next answer).bind second

instance : Monad (Program Op Answer) where
  pure := .done
  bind := Program.bind

/-- The operation alone. -/
def perform (op : Op) : Program Op Answer (Answer op) := .ask op .done

/-- The run of a program alone, with the answers that a server gives. -/
def run {World : Type} (serve : World → (op : Op) → Option (Answer op × World)) :
    Program Op Answer α → World → Option (α × World)
  | .done value, world => some (value, world)
  | .ask op next, world =>
    match serve world op with
    | none => none
    | some (answer, after) => (next answer).run serve after

/-- Some run of a program alone, by what the operations may answer and do, ends with a
value and a world. -/
def Ends {World : Type} (effect : World → (op : Op) → Answer op → World → Prop) :
    Program Op Answer α → World → α → World → Prop
  | .done value, before, result, after => value = result ∧ before = after
  | .ask op next, before, result, after =>
    ∃ answer middle, effect before op answer middle ∧
        (next answer).Ends effect middle result after

@[simp] theorem done_bind (value : α) (second : α → Program Op Answer β) :
    (Program.done value >>= second) = second value := rfl

@[simp] theorem pure_bind' (value : α) (second : α → Program Op Answer β) :
    ((pure value : Program Op Answer α) >>= second) = second value := rfl

@[simp] theorem ask_bind (op : Op) (next : Answer op → Program Op Answer α)
    (second : α → Program Op Answer β) :
    (Program.ask op next >>= second) = .ask op fun answer => next answer >>= second := rfl

theorem ends_bind {World : Type} {effect : World → (op : Op) → Answer op → World → Prop}
    {first : Program Op Answer α} {second : α → Program Op Answer β} {before after : World}
    {result : β} :
    (first >>= second).Ends effect before result after ↔
      ∃ value middle, first.Ends effect before value middle ∧
        (second value).Ends effect middle result after := by
  induction first generalizing before with
  | done value =>
    rw [done_bind]
    constructor
    · intro ended
      exact ⟨value, before, ⟨rfl, rfl⟩, ended⟩
    · rintro ⟨_, _, ⟨rfl, rfl⟩, ended⟩
      exact ended
  | ask op next ih =>
    rw [ask_bind]
    constructor
    · rintro ⟨answer, world, taken, ended⟩
      obtain ⟨value, middle, one, two⟩ := (ih answer).mp ended
      exact ⟨value, middle, ⟨answer, world, taken, one⟩, two⟩
    · rintro ⟨value, middle, ⟨answer, world, taken, one⟩, two⟩
      exact ⟨answer, world, taken, (ih answer).mpr ⟨value, middle, one, two⟩⟩

/-- The answers of a server are among those that the operations may give. -/
theorem ends_of_run {World : Type} {effect : World → (op : Op) → Answer op → World → Prop}
    {serve : World → (op : Op) → Option (Answer op × World)}
    (sound : ∀ world op answer after, serve world op = some (answer, after) →
      effect world op answer after)
    {program : Program Op Answer α} {before after : World} {result : α}
    (ran : program.run serve before = some (result, after)) :
    program.Ends effect before result after := by
  induction program generalizing before with
  | done value =>
    cases ran
    exact ⟨rfl, rfl⟩
  | ask op next ih =>
    unfold run at ran
    cases served : serve before op with
    | none =>
      rw [served] at ran
      cases ran
    | some outcome =>
      rw [served] at ran
      exact ⟨outcome.1, outcome.2, sound _ _ _ _ served, ih outcome.1 ran⟩

end Program

/-- What the operations do, the invariant of the world, and what each client relies on
and guarantees of a step. -/
structure Protocol (Op : Type) (Answer : Op → Type) (World : Type) where
  effect : Nat → World → (op : Op) → Answer op → World → Prop
  inv : World → Prop
  rely : Nat → World → World → Prop
  guarantee : Nat → World → World → Prop

namespace Protocol

variable {Op : Type} {Answer : Op → Type} {World : Type} (protocol : Protocol Op Answer World)

/-- The steps of the others keep the assertion. -/
def Stable (client : Nat) (assertion : World → Prop) : Prop :=
  ∀ before after, protocol.inv before → protocol.inv after → protocol.rely client before after →
    assertion before → assertion after

/-- The program keeps the protocol from the precondition, and its value satisfies the
postcondition. -/
def Spec {α : Type} (client : Nat) (pre : World → Prop) :
    Program Op Answer α → (α → World → Prop) → Prop
  | .done value, post => ∀ world, protocol.inv world → pre world → post value world
  | .ask op next, post => ∀ before answer after, protocol.inv before → pre before →
      protocol.effect client before op answer after →
        protocol.inv after ∧ protocol.guarantee client before after ∧
          ∃ middle, protocol.Stable client middle ∧ middle after ∧
            Spec client middle (next answer) post

variable {protocol} {α β : Type} {client : Nat} {pre : World → Prop}
  {post : α → World → Prop} {program : Program Op Answer α}

theorem Spec.weaken {other : World → Prop} (spec : protocol.Spec client pre program post)
    (implies : ∀ world, protocol.inv world → other world → pre world) :
    protocol.Spec client other program post := by
  cases program with
  | done value =>
    intro world inv held
    exact spec world inv (implies world inv held)
  | ask op next =>
    intro before answer after inv held taken
    exact spec before answer after inv (implies before inv held) taken

theorem Spec.conseq {other : α → World → Prop} (spec : protocol.Spec client pre program post)
    (implies : ∀ value world, protocol.inv world → post value world → other value world) :
    protocol.Spec client pre program other := by
  induction program generalizing pre with
  | done value =>
    intro world inv held
    exact implies value world inv (spec world inv held)
  | ask op next ih =>
    intro before answer after inv held taken
    obtain ⟨kept, within, middle, stable, now, rest⟩ := spec before answer after inv held taken
    exact ⟨kept, within, middle, stable, now, ih answer rest⟩

theorem Spec.bind {second : α → Program Op Answer β} {last : β → World → Prop}
    (first : protocol.Spec client pre program post)
    (rest : ∀ value, protocol.Spec client (post value) (second value) last) :
    protocol.Spec client pre (program >>= second) last := by
  induction program generalizing pre with
  | done value => exact (rest value).weaken first
  | ask op next ih =>
    intro before answer after inv held taken
    obtain ⟨kept, within, middle, stable, now, goes⟩ := first before answer after inv held taken
    exact ⟨kept, within, middle, stable, now, ih answer goes⟩

/-- A value alone. -/
theorem Spec.pure {value : α} (holds : ∀ world, protocol.inv world → pre world → post value world) :
    protocol.Spec client pre (Pure.pure value : Program Op Answer α) post := holds

/-- One operation whose answers all establish the postcondition, which the others do not
disturb. -/
theorem Spec.perform {op : Op} {result : Answer op → World → Prop}
    (stable : ∀ answer, protocol.Stable client (result answer))
    (holds : ∀ before answer after, protocol.inv before → pre before →
      protocol.effect client before op answer after →
        protocol.inv after ∧ protocol.guarantee client before after ∧ result answer after) :
    protocol.Spec client pre (Program.perform op) result := by
  intro before answer after inv held taken
  obtain ⟨kept, within, now⟩ := holds before answer after inv held taken
  exact ⟨kept, within, result answer, stable answer, now, fun _ _ there => there⟩

/-- What is true whatever the others do needs no assertion about the world. -/
theorem Stable.const (holds : Prop) : protocol.Stable client fun _ => holds :=
  fun _ _ _ _ _ held => held

theorem Stable.and {one two : World → Prop} (first : protocol.Stable client one)
    (second : protocol.Stable client two) :
    protocol.Stable client fun world => one world ∧ two world :=
  fun before after inv invAfter step held =>
    ⟨first before after inv invAfter step held.1, second before after inv invAfter step held.2⟩

/-- The rule for a known precondition: a fact about data may be taken out of it. -/
theorem Spec.of_fact {fact : Prop} (known : ∀ world, protocol.inv world → pre world → fact)
    (spec : fact → protocol.Spec client pre program post) :
    protocol.Spec client pre program post := by
  by_cases holds : fact
  · exact spec holds
  · cases program with
    | done value =>
      intro world inv held
      exact absurd (known world inv held) holds
    | ask op next =>
      intro before answer after inv held taken
      exact absurd (known before inv held) holds

end Protocol

/-! ## Clients in any order -/

section

variable {Op : Type} {Answer : Op → Type} {World ρ : Type}
  (effect : Nat → World → (op : Op) → Answer op → World → Prop)
  (starts : Nat → Program Op Answer ρ → Prop) (protocol : Protocol Op Answer World)

/-- The worlds and clients that are reached when clients start programs and make their
operations in any order. -/
inductive Pool.Reaches (world : World) :
    World → (Nat → Option (Program Op Answer ρ)) → Prop
  | initial : Pool.Reaches world world fun _ => none
  | start {current : World} {clients : Nat → Option (Program Op Answer ρ)} {client : Nat}
      {program : Program Op Answer ρ} (before : Pool.Reaches world current clients)
      (idle : clients client = none) (may : starts client program) :
      Pool.Reaches world current (Function.update clients client (some program))
  | act {current next : World} {clients : Nat → Option (Program Op Answer ρ)} {client : Nat}
      {op : Op} {rest : Answer op → Program Op Answer ρ} {answer : Answer op}
      (before : Pool.Reaches world current clients)
      (running : clients client = some (.ask op rest))
      (taken : effect client current op answer next) :
      Pool.Reaches world next (Function.update clients client (some (rest answer)))

/-- A client that has not started, or one in the middle of a program that is specified with
what it promises of its value. -/
def Pool.Promised (idle : Nat → World → Prop) (promise : Nat → ρ → World → Prop) (client : Nat)
    (world : World) : Option (Program Op Answer ρ) → Prop
  | none => idle client world
  | some program => ∃ pre, protocol.Stable client pre ∧ pre world ∧
      protocol.Spec client pre program (promise client)

variable {effect starts protocol}

theorem Pool.Promised.step {idle : Nat → World → Prop} {promise : Nat → ρ → World → Prop}
    {client : Nat} {before after : World} {program : Option (Program Op Answer ρ)}
    (unstarted : ∀ client, protocol.Stable client (idle client))
    (promised : Pool.Promised protocol idle promise client before program)
    (inv : protocol.inv before) (kept : protocol.inv after)
    (step : protocol.rely client before after) :
    Pool.Promised protocol idle promise client after program := by
  cases program with
  | none => exact unstarted client before after inv kept step promised
  | some program =>
    obtain ⟨pre, stable, held, spec⟩ := promised
    exact ⟨pre, stable, stable before after inv kept step held, spec⟩

/-- A client that is done has kept its promise. -/
theorem Pool.Promised.done {idle : Nat → World → Prop} {promise : Nat → ρ → World → Prop}
    {client : Nat} {world : World} {value : ρ} (inv : protocol.inv world)
    (promised : Pool.Promised protocol idle promise client world (some (.done value))) :
    promise client value world := by
  obtain ⟨pre, -, held, spec⟩ := promised
  exact spec world inv held

/-- Clients that keep the protocol keep the invariant together, and their promises. -/
theorem Pool.promised {idle : Nat → World → Prop} {promise : Nat → ρ → World → Prop}
    (compatible : ∀ one two before after, one ≠ two → protocol.guarantee one before after →
      protocol.rely two before after)
    (unstarted : ∀ client, protocol.Stable client (idle client))
    (specified : ∀ client program, starts client program →
      protocol.Spec client (idle client) program (promise client))
    {world current : World} {clients : Nat → Option (Program Op Answer ρ)}
    (inv : protocol.inv world) (fresh : ∀ client, idle client world)
    (reached : Pool.Reaches protocol.effect starts world current clients) :
    protocol.inv current ∧
      ∀ client, Pool.Promised protocol idle promise client current (clients client) := by
  induction reached with
  | initial => exact ⟨inv, fresh⟩
  | @start current clients client program before notStarted may ih =>
    refine ⟨ih.1, ?_⟩
    intro other
    rw [Function.update_apply]
    split_ifs with same
    · subst same
      have waits := ih.2 other
      rw [notStarted] at waits
      exact ⟨idle other, unstarted other, waits, specified other program may⟩
    · exact ih.2 other
  | @act current next clients client op rest answer before running taken ih =>
    have ready := ih.2 client
    rw [running] at ready
    obtain ⟨pre, stable, held, spec⟩ := ready
    obtain ⟨kept, within, middle, middleStable, now, goes⟩ :=
      spec current answer next ih.1 held taken
    refine ⟨kept, ?_⟩
    intro other
    rw [Function.update_apply]
    split_ifs with same
    · subst same
      exact ⟨middle, middleStable, now, goes⟩
    · exact (ih.2 other).step unstarted ih.1 kept
        (compatible client other current next (Ne.symm same) within)

end

end ZManager
