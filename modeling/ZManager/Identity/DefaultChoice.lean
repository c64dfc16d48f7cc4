import Mathlib.Logic.Relation
import ZManager.Foundation.Base64Url
import ZManager.Identity.Lifecycle
import ZManager.Identity.SavedCatalog
import ZManager.Identity.VaultRun

/-! # The default signing identity across saves

Each save chooses the default of the new catalog from the one published before
it. While a renewal is pending, no certificate of the renewed one's id is
active, so the choice is forgotten, and the next save takes the first active
certificate. `default_choice_kept` says when a choice survives a renewal and a
run of saves.
-/

namespace ZManager.Identity

open EnrolledCertificate

variable {primitives : CatalogPrimitives}

variable {row : PublicSigningIdentity} {selects : EnrolledCertificate → Bool}
  {state : LocalCertificateState} {edited : List EnrolledCertificate} {fingerprint : Text}

/-! ## The choice of one save -/

/-- A fold that keeps what it has or takes the item ends with its start or an item. -/
theorem mem_of_foldl_choice {α : Type} {step : Option α → α → Option α}
    (steps : ∀ best item, step best item = best ∨ step best item = some item) {items : List α}
    {start : Option α} {last : α} (ends : items.foldl step start = some last) :
    last ∈ items ∨ start = some last := by
  induction items generalizing start with
  | nil => exact .inr ends
  | cons item rest ih =>
    rcases ih ends with inside | found
    · exact .inl (List.mem_cons_of_mem _ inside)
    · rcases steps start item with kept | taken
      · exact .inr (kept.symm.trans found)
      · cases taken.symm.trans found
        exact .inl List.mem_cons_self

theorem mem_of_latestDefault {candidates : List PublicSigningIdentity}
    (latest : latestDefault candidates = some row) :
    row ∈ candidates := by
  unfold latestDefault at latest
  refine (mem_of_foldl_choice (fun best candidate => ?_) latest).resolve_right
    (Option.some_ne_none row).symm
  cases best with
  | none => exact .inr rfl
  | some old =>
    dsimp only
    split_ifs
    · exact .inl rfl
    · exact .inr rfl

/-- The default is kept while its row is active; else it is lost, or moves to an active
row of the same key identity. -/
theorem preserveDefaultSigningIdentity_cases {existing draft : Catalog} {chosen : Text}
    (default : existing.defaultSigningIdentityId = some chosen) :
    ((∃ row ∈ draft.signingIdentities, row.id = chosen ∧
          row.lifecycle = LocalCertificateState.active.asStr) ∧
        (preserveDefaultSigningIdentity primitives (some existing)
          draft).defaultSigningIdentityId = some chosen) ∨
      ((∀ row ∈ draft.signingIdentities, row.id = chosen →
          row.lifecycle ≠ LocalCertificateState.active.asStr) ∧
        ((preserveDefaultSigningIdentity primitives (some existing)
            draft).defaultSigningIdentityId = none ∨
          ∃ previous ∈ existing.signingIdentities, previous.id = chosen ∧
            ∃ row ∈ draft.signingIdentities, row.id ≠ chosen ∧
              row.lifecycle = LocalCertificateState.active.asStr ∧
              (∃ identity, row.certificateKeyIdentity primitives = .ok identity ∧
                previous.certificateKeyIdentity primitives = .ok identity) ∧
              (preserveDefaultSigningIdentity primitives (some existing)
                draft).defaultSigningIdentityId = some row.id)) := by
  unfold preserveDefaultSigningIdentity
  dsimp only
  rw [default]
  dsimp only
  split
  · rename_i active
    obtain ⟨row, member, holds⟩ := List.any_eq_true.mp active
    obtain ⟨same, shown⟩ := Bool.and_eq_true_iff.mp holds
    exact .inl ⟨⟨row, member, eq_of_beq same, eq_of_beq shown⟩, rfl⟩
  · rename_i inactive
    refine .inr ⟨fun row member same shown => inactive (List.any_eq_true.mpr
      ⟨row, member, Bool.and_eq_true_iff.mpr ⟨beq_iff_eq.mpr same, beq_iff_eq.mpr shown⟩⟩), ?_⟩
    split
    · exact .inl rfl
    · rename_i previous found
      dsimp only
      cases latest : latestDefault _ with
      | none => exact .inl rfl
      | some row =>
        obtain ⟨member, holds⟩ := List.mem_filter.mp (mem_of_latestDefault latest)
        obtain ⟨holds, alike⟩ := Bool.and_eq_true_iff.mp holds
        obtain ⟨other, shown⟩ := Bool.and_eq_true_iff.mp holds
        have named : (previous.id == chosen) = true := by simpa using List.find?_some found
        refine .inr ⟨previous, List.mem_of_find?_eq_some found, eq_of_beq named, row, member, bne_iff_ne.mp other,
          eq_of_beq shown, ?_, rfl⟩
        split at alike
        · rename_i one two first second
          exact ⟨one, first, (eq_of_beq alike).symm ▸ second⟩
        · cases alike

section

variable {inventory : Inventory} {existing : Option Catalog} {catalog next : Catalog}

variable {certificate : EnrolledCertificate}

section

variable (saved : Saved primitives inventory existing next)
include saved

theorem Saved.row_unique {one two : PublicSigningIdentity} (first : one ∈ next.signingIdentities)
    (second : two ∈ next.signingIdentities) (same : one.id = two.id) : one = two :=
  List.inj_on_of_nodup_map (validate_signingIdentities saved.valid) first second same

theorem Saved.default_unchosen (unchosen : existing.bind (·.defaultSigningIdentityId) = none) :
    next.defaultSigningIdentityId = inventory.firstActive.map (·.certificateId) := by
  obtain ⟨draft, -, first, chosen⟩ := saved.default
  rw [chosen, ← first]
  unfold preserveDefaultSigningIdentity
  cases existing with
  | none => rfl
  | some catalog =>
    have default : catalog.defaultSigningIdentityId = none := unchosen
    dsimp only
    rw [default]

/-- An active row of a certificate that stands in the catalog is of that certificate. -/
theorem Saved.active_certificate (member : certificate ∈ inventory.enrolledCertificates)
    (inside : row ∈ next.signingIdentities) (same : row.id = certificate.certificateId)
    (active : row.lifecycle = LocalCertificateState.active.asStr) :
    certificate.state = .active := by
  obtain ⟨own, found, isRow⟩ := saved.rows certificate member
  rw [saved.row_unique inside found (same.trans isRow.id.symm), isRow.lifecycle] at active
  exact lifecycle_active_iff.mp active

end

/-- A default whose certificate is active stays. -/
theorem Saved.default_active (saved : Saved primitives inventory (some catalog) next)
    (member : certificate ∈ inventory.enrolledCertificates) (active : certificate.state = .active)
    (default : catalog.defaultSigningIdentityId = some certificate.certificateId) :
    next.defaultSigningIdentityId = some certificate.certificateId := by
  obtain ⟨draft, rows, -, chosen⟩ := saved.default
  rcases @preserveDefaultSigningIdentity_cases primitives catalog draft _ default
    with ⟨-, kept⟩ | ⟨lost, -⟩
  · exact chosen.trans kept
  · obtain ⟨row, inside, isRow⟩ := saved.rows certificate member
    exact absurd (isRow.lifecycle.trans (lifecycle_active_iff.mpr active))
      (lost row (rows ▸ inside) isRow.id)

/-- A default whose certificate is not active is lost, or moves to another active
certificate with the key identity of its row. -/
theorem Saved.default_inactive (saved : Saved primitives inventory (some catalog) next)
    {chosen : Text} (default : catalog.defaultSigningIdentityId = some chosen)
    (inactive : ∀ row ∈ next.signingIdentities, row.id = chosen →
      row.lifecycle ≠ LocalCertificateState.active.asStr) :
    next.defaultSigningIdentityId = none ∨
      ∃ certificate ∈ inventory.enrolledCertificates, certificate.state = .active ∧
        certificate.certificateId ≠ chosen ∧
        next.defaultSigningIdentityId = some certificate.certificateId ∧
        ∃ previous ∈ catalog.signingIdentities, previous.id = chosen ∧
          ∃ row ∈ next.signingIdentities, IsRowOf certificate row ∧
            ∃ identity, row.certificateKeyIdentity primitives = .ok identity ∧
              previous.certificateKeyIdentity primitives = .ok identity := by
  obtain ⟨draft, rows, -, result⟩ := saved.default
  rcases @preserveDefaultSigningIdentity_cases primitives catalog draft _ default
    with ⟨⟨row, inside, same, active⟩, -⟩ | ⟨-, lost | moved⟩
  · exact absurd active (inactive row (rows ▸ inside) same)
  · exact .inl (result.trans lost)
  · obtain ⟨previous, known, named, row, inside, other, active, ⟨identity, own, before⟩, moved⟩ :=
      moved
    rcases saved.active row (rows ▸ inside) active with ⟨certificate, member, isRow⟩ | damaged
    · have state : certificate.state = .active :=
        lifecycle_active_iff.mp (isRow.lifecycle.symm.trans active)
      refine .inr ⟨certificate, member, state, isRow.id ▸ other, ?_, previous, known, named, row,
        rows ▸ inside, isRow, identity, own, before⟩
      rw [result, moved, isRow.id]
    · obtain ⟨_, -, old, -, same, reason, failed⟩ := damaged
      rw [same.keyIdentity, failed] at own
      cases own

end

/-! ## A renewal -/

theorem setFirst_split {certificates : List EnrolledCertificate}
    (done : setFirst selects state certificates = some edited) :
    ∃ front certificate back, certificates = front ++ certificate :: back ∧
      selects certificate = true ∧
      edited = front ++ { certificate with state := state } :: back := by
  induction certificates generalizing edited with
  | nil => cases done
  | cons certificate rest ih =>
    unfold setFirst at done
    split_ifs at done with selected
    · cases done
      exact ⟨[], certificate, rest, rfl, selected, rfl⟩
    · obtain ⟨tail, found, rfl⟩ := Option.map_eq_some_iff.mp done
      obtain ⟨front, chosen, back, rfl, selected, rfl⟩ := ih found
      exact ⟨certificate :: front, chosen, back, rfl, selected, rfl⟩

/-- The certificate of an id gets a state; the others stay as they are. -/
structure SetsState (certificateId : Text) (state : LocalCertificateState)
    (certificates edited : List EnrolledCertificate) : Prop where
  others : ∀ certificate, certificate.certificateId ≠ certificateId →
    (certificate ∈ edited ↔ certificate ∈ certificates)
  named : ∃ certificate ∈ edited, certificate.certificateId = certificateId
  state : ∀ certificate ∈ edited, certificate.certificateId = certificateId →
    certificate.state = state

theorem setsState_of_editFirst {inventory : Inventory} {certificateId : Text}
    (done : editFirst inventory selects state = .ok edited)
    (selected : ∀ certificate, selects certificate = true →
      certificate.certificateId = certificateId)
    (distinct : (edited.map (·.certificateId)).Nodup) :
    SetsState certificateId state inventory.enrolledCertificates edited := by
  unfold editFirst at done
  split at done
  · cases done
  · rename_i result found
    cases done
    obtain ⟨front, certificate, back, before, chosen, after⟩ := setFirst_split found
    have named := selected certificate chosen
    have inside : { certificate with state := state } ∈ edited := by
      rw [after]
      exact List.mem_append_right _ List.mem_cons_self
    refine ⟨fun other different => ?_, ⟨_, inside, named⟩, fun other member same => ?_⟩
    · have old : other ≠ certificate := fun same => different (same ▸ named)
      have new : other ≠ { certificate with state := state } := fun same =>
        different (same ▸ named)
      rw [before, after]
      simp [old, new]
    · rw [List.inj_on_of_nodup_map distinct member inside (same.trans named.symm)]

section

variable {inventory journaled committed : Inventory} {call : RenewalCall} {chosen : Text}
  {certificate record : EnrolledCertificate}

/-- The inventory of the first save: the predecessor waits. -/
theorem journal_setsState
    (done : call.journal primitives.toCertificatePrimitives inventory = .ok journaled)
    (distinct : (journaled.enrolledCertificates.map (·.certificateId)).Nodup) :
    SetsState call.request.previousCertificateId .renewalPending inventory.enrolledCertificates
      journaled.enrolledCertificates := by
  unfold RenewalCall.journal at done
  simp only [Except.bind_eq_ok_iff] at done
  obtain ⟨_, -, _, -, _, -, _, -, predecessor, -, _, -, edited, editing, same⟩ := done
  cases same
  exact setsState_of_editFirst editing (fun _ named => (isNamed_iff.mp named).1) distinct

/-- The inventory of the second save: the predecessor is revoked, and the active
replacement is the last certificate. -/
theorem commit_setsState
    {validator : List (List UInt8) →
      Except EnrollmentError (List (List UInt8) × CertificatePublicMetadata)}
    {answer : ReceivedPayload} {nowUnixSeconds : Nat}
    (journal : call.journal primitives.toCertificatePrimitives inventory = .ok journaled)
    (done : call.commit primitives.toCertificatePrimitives validator answer nowUnixSeconds
      inventory = .ok committed)
    (distinct : (committed.enrolledCertificates.map (·.certificateId)).Nodup)
    (last : committed.enrolledCertificates.getLast? = some record) :
    record.state = .active ∧ ∃ edited, committed.enrolledCertificates = edited ++ [record] ∧
      SetsState call.request.previousCertificateId .revoked journaled.enrolledCertificates
        edited := by
  unfold RenewalCall.commit at done
  simp only [Except.bind_eq_ok_iff] at done
  obtain ⟨_, again, _, -, predecessor, -, replacement, accepted, edited, editing, same⟩ := done
  cases journal.symm.trans again
  cases same
  dsimp only at last distinct ⊢
  rw [List.getLast?_concat] at last
  cases last
  rw [List.map_append] at distinct
  refine ⟨?_, edited, rfl, setsState_of_editFirst editing
    (fun _ named => eq_of_beq named) distinct.of_append_left⟩
  unfold acceptReplacement at accepted
  obtain ⟨checked, -, accepted⟩ := Except.bind_eq_ok_iff.mp accepted
  split_ifs at accepted
  · have made := fromEnrollment_eq_ok.mp accepted
    unfold intoStoreRecord at made
    obtain ⟨routing, -, same⟩ := Except.bind_eq_ok_iff.mp made
    cases same
    rfl

/-- After the first save the default is lost or is another active certificate. -/
theorem default_of_journal_saved {catalog middle : Catalog}
    (saved : Saved primitives journaled (some catalog) middle)
    (sets : SetsState chosen .renewalPending inventory.enrolledCertificates
      journaled.enrolledCertificates)
    (default : catalog.defaultSigningIdentityId = some chosen) :
    middle.defaultSigningIdentityId = none ∨
      ∃ certificate ∈ journaled.enrolledCertificates, certificate.state = .active ∧
        certificate.certificateId ≠ chosen ∧
        middle.defaultSigningIdentityId = some certificate.certificateId := by
  have inactive : ∀ row ∈ middle.signingIdentities, row.id = chosen →
      row.lifecycle ≠ LocalCertificateState.active.asStr := by
    intro row member same active
    obtain ⟨waiting, inside, named⟩ := sets.named
    have state := saved.active_certificate inside member (same.trans named.symm) active
    rw [sets.state waiting inside named] at state
    cases state
  rcases saved.default_inactive default inactive with lost | ⟨other, member, active, different,
    moved, -⟩
  · exact .inl lost
  · exact .inr ⟨other, member, active, different, moved⟩

/-- The replacement is the default after a renewal of the default exactly when no other
certificate is active. -/
theorem renewal_default_iff {catalog middle last : Catalog}
    (default : catalog.defaultSigningIdentityId = some chosen)
    (journal : SetsState chosen .renewalPending inventory.enrolledCertificates
      journaled.enrolledCertificates)
    (commit : SetsState chosen .revoked journaled.enrolledCertificates edited)
    (appended : committed.enrolledCertificates = edited ++ [record])
    (active : record.state = .active) (first : Saved primitives journaled (some catalog) middle)
    (second : Saved primitives committed (some middle) last) :
    last.defaultSigningIdentityId = some record.certificateId ↔
      ∀ certificate ∈ inventory.enrolledCertificates, certificate.state = .active →
        certificate.certificateId = chosen := by
  have fresh : ∀ certificate ∈ edited, certificate.certificateId ≠ record.certificateId := by
    have distinct := second.distinct
    rw [appended, List.map_append] at distinct
    intro certificate member same
    exact (List.disjoint_of_nodup_append distinct) (List.mem_map_of_mem member)
      (List.mem_singleton.mpr same)
  have through : ∀ {certificate : EnrolledCertificate}, certificate.certificateId ≠ chosen →
      (certificate ∈ edited ↔ certificate ∈ inventory.enrolledCertificates) :=
    fun different => (commit.others _ different).trans (journal.others _ different)
  have pending : ∀ certificate ∈ edited, certificate.state = .active →
      certificate.certificateId ≠ chosen := by
    intro certificate member state same
    rw [commit.state certificate member same] at state
    cases state
  constructor
  · intro replaced certificate member state
    by_contra different
    have here : certificate ∈ edited := (through different).mpr member
    rcases default_of_journal_saved first journal default with lost | ⟨other, inside, shown, apart,
      moved⟩
    · have selected := second.default_unchosen lost
      rw [replaced] at selected
      obtain ⟨chosenFirst, found, same⟩ := Option.map_eq_some_iff.mp selected.symm
      unfold Inventory.firstActive at found
      rw [appended, List.find?_append] at found
      cases early : edited.find? (fun row => row.state == .active) with
      | none => exact absurd (beq_iff_eq.mpr state) (List.find?_eq_none.mp early certificate here)
      | some row =>
        rw [early] at found
        cases found
        exact fresh chosenFirst (List.mem_of_find?_eq_some early) same
    · have kept : other ∈ edited := (commit.others other apart).mpr inside
      have selected := second.default_active
        (appended ▸ List.mem_append_left [record] kept) shown moved
      rw [replaced] at selected
      exact fresh other kept (Option.some.inj selected).symm
  · intro only
    have none : middle.defaultSigningIdentityId = none := by
      rcases default_of_journal_saved first journal default with lost | ⟨other, inside, shown,
        apart, -⟩
      · exact lost
      · exact absurd (only other ((journal.others other apart).mp inside) shown) apart
    rw [second.default_unchosen none]
    unfold Inventory.firstActive
    have early : edited.find? (fun row => row.state == .active) = Option.none := by
      apply List.find?_eq_none.mpr
      intro certificate member state
      have different := pending certificate member (eq_of_beq state)
      exact different (only certificate ((through different).mp member) (eq_of_beq state))
    rw [appended, List.find?_append, early, Option.none_or, List.find?_singleton, active]
    rfl

end

/-! ## A run of saves -/

/-- A save of an inventory that succeeds, alone with its stores. -/
def SavesInventory (primitives : CatalogPrimitives) (inventory : Inventory)
    (before after : Vault) : Prop :=
  ∃ client order catalogId, (storeInventoryAsCatalog primitives order inventory catalogId).Ends
    (Vault.effect primitives client) before (.ok ()) after

/-- What a save has to meet for the chosen key to stay: an active certificate under the id of
the default is of the key, and where no default is published, the first active
certificate is of the key. -/
structure KeepsChoice (primitives : CatalogPrimitives) (fingerprint : Text)
    (existing : Option Catalog) (inventory : Inventory) : Prop where
  named : ∀ certificate ∈ inventory.enrolledCertificates, certificate.state = .active →
    existing.bind (·.defaultSigningIdentityId) = some certificate.certificateId →
      certificate.leafFingerprint primitives = some fingerprint
  first : existing.bind (·.defaultSigningIdentityId) = none →
    ∀ certificate, inventory.firstActive = some certificate →
      certificate.leafFingerprint primitives = some fingerprint

instance {fingerprint : Text} {existing : Option Catalog} {inventory : Inventory} :
    Decidable (KeepsChoice primitives fingerprint existing inventory) :=
  decidable_of_iff
    ((∀ certificate ∈ inventory.enrolledCertificates, certificate.state = .active →
        existing.bind (·.defaultSigningIdentityId) = some certificate.certificateId →
          certificate.leafFingerprint primitives = some fingerprint) ∧
      (existing.bind (·.defaultSigningIdentityId) = none →
        ∀ certificate ∈ inventory.firstActive,
          certificate.leafFingerprint primitives = some fingerprint))
    ⟨fun both => ⟨both.1, both.2⟩, fun keeps => ⟨keeps.named, keeps.first⟩⟩

/-- A save of some inventory that meets the condition. -/
def KeepingSave (primitives : CatalogPrimitives) (fingerprint : Text) (before after : Vault) :
    Prop :=
  ∃ inventory, KeepsChoice primitives fingerprint before.catalog inventory ∧
    SavesInventory primitives inventory before after

/-- While an active row has the chosen key identity, the default is not a row of another key. -/
def ChoiceKept (primitives : CatalogPrimitives) (identity : SigningKeyIdentity)
    (published : Option Catalog) : Prop :=
  ∀ catalog, published = some catalog →
    (∃ row ∈ catalog.signingIdentities, row.lifecycle = LocalCertificateState.active.asStr ∧
      row.certificateKeyIdentity primitives = .ok identity) →
    ∀ row ∈ catalog.signingIdentities, catalog.defaultSigningIdentityId = some row.id →
      ∀ other, row.certificateKeyIdentity primitives = .ok other →
        other.publicKeyFingerprint = identity.publicKeyFingerprint

/-- A default of the catalog is a row with a key of the fingerprint. -/
structure DefaultHasKey (primitives : CatalogPrimitives) (fingerprint : Text)
    (catalog : Catalog) : Prop where
  valid : catalog.validate primitives = .ok ()
  row : ∀ chosen, catalog.defaultSigningIdentityId = some chosen →
    ∃ row ∈ catalog.signingIdentities, row.id = chosen ∧
      ∃ identity, row.certificateKeyIdentity primitives = .ok identity ∧
        identity.publicKeyFingerprint = fingerprint

theorem IsRowOf.fingerprint_iff {certificate : EnrolledCertificate}
    (isRow : IsRowOf certificate row) :
    (∃ identity, row.certificateKeyIdentity primitives = .ok identity ∧
        identity.publicKeyFingerprint = fingerprint) ↔
      certificate.leafFingerprint primitives = some fingerprint := by
  unfold PublicSigningIdentity.certificateKeyIdentity PublicSigningIdentity.certificateParts
    EnrolledCertificate.leafFingerprint
  rw [isRow.chain]
  dsimp only
  split_ifs
  · simp only [bind, Except.bind]
    cases primitives.certificateKey certificate.leafCertificateDer with
    | none => simp
    | some key =>
      constructor
      · rintro ⟨identity, same, rfl⟩
        cases same
        rfl
      · intro same
        exact ⟨_, rfl, Option.some.inj same⟩
  · simp [bind, Except.bind]

/-- One save that meets the condition keeps the key of the default. -/
theorem DefaultHasKey.save {inventory : Inventory} {catalog next : Catalog}
    (has : DefaultHasKey primitives fingerprint catalog)
    (keeps : KeepsChoice primitives fingerprint (some catalog) inventory)
    (saved : Saved primitives inventory (some catalog) next) :
    DefaultHasKey primitives fingerprint next := by
  refine ⟨saved.valid, fun chosen shown => ?_⟩
  have ofCertificate : ∀ certificate ∈ inventory.enrolledCertificates,
      certificate.certificateId = chosen →
      certificate.leafFingerprint primitives = some fingerprint →
      ∃ row ∈ next.signingIdentities, row.id = chosen ∧
        ∃ identity, row.certificateKeyIdentity primitives = .ok identity ∧
          identity.publicKeyFingerprint = fingerprint := by
    intro certificate member named known
    obtain ⟨row, inside, isRow⟩ := saved.rows certificate member
    exact ⟨row, inside, isRow.id.trans named, isRow.fingerprint_iff.mpr known⟩
  cases default : catalog.defaultSigningIdentityId with
  | none =>
    rw [saved.default_unchosen default] at shown
    obtain ⟨certificate, first, named⟩ := Option.map_eq_some_iff.mp shown
    exact ofCertificate certificate (List.mem_of_find?_eq_some first) named
      (keeps.first default certificate first)
  | some old =>
    obtain ⟨previous, before, named, identity, own, key⟩ := has.row old default
    by_cases active : ∃ row ∈ next.signingIdentities, row.id = old ∧
      row.lifecycle = LocalCertificateState.active.asStr
    · obtain ⟨row, inside, same, state⟩ := active
      rcases saved.active row inside state with ⟨certificate, member, isRow⟩ | damaged
      · have current : certificate.state = .active :=
          lifecycle_active_iff.mp (isRow.lifecycle.symm.trans state)
        have named' : certificate.certificateId = old := isRow.id.symm.trans same
        rw [saved.default_active member current (named' ▸ default)] at shown
        cases shown
        exact ofCertificate certificate member rfl
          (keeps.named certificate member current (named' ▸ default))
      · -- the row of the default parses, so it is not a damaged one
        obtain ⟨_, read, other, found, alike, reason, failed⟩ := damaged
        cases read
        have sameRow : other = previous := by
          apply List.inj_on_of_nodup_map (validate_signingIdentities has.valid) found before
          rw [named, ← same, alike]
        rw [sameRow, own] at failed
        cases failed
    · have inactive : ∀ row ∈ next.signingIdentities, row.id = old →
          row.lifecycle ≠ LocalCertificateState.active.asStr :=
        fun row inside same state => active ⟨row, inside, same, state⟩
      rcases saved.default_inactive default inactive with lost | ⟨certificate, member, -, -, moved,
        earlier, found, alike, row, inside, isRow, other, shownKey, earlierKey⟩
      · rw [lost] at shown
        cases shown
      · have sameRow : earlier = previous :=
          List.inj_on_of_nodup_map (validate_signingIdentities has.valid) found before
            (alike.trans named.symm)
        rw [sameRow, own] at earlierKey
        cases earlierKey
        rw [moved] at shown
        exact ⟨row, inside, isRow.id.trans (Option.some.inj shown), identity, shownKey, key⟩

/-- A run of saves that all meet the condition keeps the key of the default. -/
theorem defaultHasKey_of_run {start finish : Vault} {catalog : Catalog}
    (published : start.catalog = some catalog)
    (has : DefaultHasKey primitives fingerprint catalog)
    (run : Relation.ReflTransGen (KeepingSave primitives fingerprint) start finish) :
    ∃ last, finish.catalog = some last ∧ DefaultHasKey primitives fingerprint last := by
  induction run with
  | refl => exact ⟨catalog, published, has⟩
  | tail _ step ih =>
    obtain ⟨current, known, kept⟩ := ih
    obtain ⟨inventory, keeps, client, order, catalogId, ended⟩ := step
    obtain ⟨next, shown, saved⟩ := exists_saved_of_ends ended
    rw [known] at keeps saved
    exact ⟨next, shown, kept.save keeps saved⟩

theorem DefaultHasKey.choiceKept {identity : SigningKeyIdentity} {catalog : Catalog}
    (has : DefaultHasKey primitives identity.publicKeyFingerprint catalog) :
    ChoiceKept primitives identity (some catalog) := by
  intro published same _ row member shown other own
  cases same
  obtain ⟨chosen, found, named, known, read, key⟩ := has.row row.id shown
  have sameRow : chosen = row :=
    List.inj_on_of_nodup_map (validate_signingIdentities has.valid) found member named
  rw [sameRow, own] at read
  cases read
  exact key

/-- **The chosen default.** After a renewal of the certificate that the default names, the
replacement is the default exactly when no other certificate was active. In a run of saves
that find a default with an active certificate of the chosen key, if any, under its id, or
no default and a first active certificate of the chosen key, if any, the default is never a
row of another key while one of the chosen key identity is active. -/
theorem default_choice_kept (primitives : CatalogPrimitives)
    (validator : List (List UInt8) →
      Except EnrollmentError (List (List UInt8) × CertificatePublicMetadata)) :
    (∀ (inventory journaled committed : Inventory) (call : RenewalCall) (answer : ReceivedPayload)
        (nowUnixSeconds : Nat) (record : EnrolledCertificate) (before middle after : Vault),
      before.catalog.bind (·.defaultSigningIdentityId) =
          some call.request.previousCertificateId →
        call.journal primitives.toCertificatePrimitives inventory = .ok journaled →
        SavesInventory primitives journaled before middle →
        call.commit primitives.toCertificatePrimitives validator answer nowUnixSeconds
          inventory = .ok committed →
        committed.enrolledCertificates.getLast? = some record →
        SavesInventory primitives committed middle after →
        (after.catalog.bind (·.defaultSigningIdentityId) = some record.certificateId ↔
          ∀ certificate ∈ inventory.enrolledCertificates, certificate.state = .active →
            certificate.certificateId = call.request.previousCertificateId)) ∧
      ∀ (start finish : Vault) (catalog : Catalog) (row : PublicSigningIdentity)
          (identity : SigningKeyIdentity),
        start.catalog = some catalog → catalog.validate primitives = .ok () →
        row ∈ catalog.signingIdentities → catalog.defaultSigningIdentityId = some row.id →
        row.certificateKeyIdentity primitives = .ok identity →
        Relation.ReflTransGen (KeepingSave primitives identity.publicKeyFingerprint) start
          finish →
        ChoiceKept primitives identity finish.catalog := by
  constructor
  · rintro inventory journaled committed call answer now record before middle after default journal
      ⟨_, _, _, first⟩ commit last ⟨_, _, _, second⟩
    obtain ⟨shown, inMiddle, savedFirst⟩ := exists_saved_of_ends first
    obtain ⟨final, inAfter, savedSecond⟩ := exists_saved_of_ends second
    obtain ⟨catalog, published, chosen⟩ := Option.bind_eq_some_iff.mp default
    rw [published] at savedFirst
    rw [inMiddle] at savedSecond
    obtain ⟨active, edited, appended, sets⟩ :=
      commit_setsState journal commit savedSecond.distinct last
    rw [inAfter]
    exact renewal_default_iff chosen (journal_setsState journal savedFirst.distinct) sets appended
      active savedFirst savedSecond
  · intro start finish catalog row identity published valid member default own run
    have has : DefaultHasKey primitives identity.publicKeyFingerprint catalog := by
      refine ⟨valid, fun chosen shown => ⟨row, member, ?_, identity, own, rfl⟩⟩
      rw [default] at shown
      exact Option.some.inj shown
    obtain ⟨last, known, kept⟩ := defaultHasKey_of_run published has run
    rw [known]
    exact kept.choiceKept

/-! ## Two renewals -/

/-- The last byte of a certificate is its key; a key is its own public key. -/
def renewalPrimitives : CatalogPrimitives :=
  { Vault.bytePrimitives with
    base64Decode := Base64Url.decode
    base64Encode := Base64Url.encode
    rawSerial := fun leafDer => leafDer.take 1
    authorityKeyIdentifier := fun _ => some [9]
    subjectKeyIdentifier := fun _ => some [9]
    certificateValidity := fun _ => some (0, 100)
    certificateKey := fun leafDer => some (leafDer.drop 1)
    requestKey := some }

def renewalMetadata : CertificatePublicMetadata where
  version := 1
  publicSignerId := "psign_0000000000000000".toList
  publicOrgId := none
  publicDeviceId := "pdev_0000000000000000".toList
  assuranceLevel := .oauthVerifiedEmail
  policyOid := "1.2".toList

def renewalKey (name : String) (key : UInt8) : DeviceSigningKey where
  keyId := name.toList
  publicKeyFingerprint := sha256Identifier renewalPrimitives.toPrimitives [key]
  privateKeyDer := [key]
  createdAtUnixSeconds := 0
  label := none
  hostedBinding := none

/-- An active certificate with a serial number of one byte, on a key. -/
def renewalCertificate (name keyName : String) (serial key : UInt8) : EnrolledCertificate where
  certificateId := name.toList
  certificateSha256 := sha256Identifier renewalPrimitives.toPrimitives [serial, key]
  issuerCertificateSha256 := sha256Identifier renewalPrimitives.toPrimitives [9]
  issuerKeyIdentifier := Base64Url.encode [9]
  serialNumber := hexUpper [serial]
  leafCertificateDer := [serial, key]
  intermediateChainDer := [[9]]
  notBeforeUnixSeconds := 0
  notAfterUnixSeconds := 100
  renewalGracePeriodDays := none
  renewalRecommendedWithinDays := none
  publicMetadata := renewalMetadata
  signDeviceId := "device".toList
  signDeviceRouting := .personal
  signingKeyId := keyName.toList
  state := .active

/-- The certificate to be renewed, behind others. -/
def renewalInventory (others : List EnrolledCertificate) : Inventory :=
  { Inventory.empty with
    deviceSigningKeys := [renewalKey "key" 1, renewalKey "other-key" 2]
    enrolledCertificates := others ++ [renewalCertificate "old" "key" 5 1] }

def renewalCall : RenewalCall where
  request := {
    previousCertificateId := "old".toList
    previousCertificateSha256 := sha256Identifier renewalPrimitives.toPrimitives [5, 1]
    orgId := none
    requestedValiditySeconds := 60
    renewalPolicy := .sameKeyRequired
    nowUnixSeconds := 50
    serverGraceSeconds := 0 }
  newSigningKey := renewalKey "key" 1
  previousSigningKey := renewalKey "key" 1
  csrDer := [1]
  operationId := "operation".toList
  createdAtUnixSeconds := 50

def renewalAnswer : ReceivedPayload :=
  ⟨{  certificateId := "new".toList
      leafCertificateDer := [6, 1]
      intermediateChainDer := [[9]]
      issuerCertificateSha256 := sha256Identifier renewalPrimitives.toPrimitives [9]
      issuerKeyIdentifier := Base64Url.encode [9]
      serialNumber := hexUpper [6]
      certificateSha256 := sha256Identifier renewalPrimitives.toPrimitives [6, 1]
      notBeforeUnixSeconds := 0
      notAfterUnixSeconds := 100
      renewalGracePeriodDays := none
      renewalRecommendedWithinDays := none
      signDeviceId := "device".toList
      loginOrganizationDeviceId := none },
    ⟨by decide, by decide, by decide, by decide⟩⟩

def acceptChain (chain : List (List UInt8)) :
    Except EnrollmentError (List (List UInt8) × CertificatePublicMetadata) :=
  .ok (chain, renewalMetadata)

/-- Stores with the catalog of an inventory, whose default is the certificate to be renewed. -/
def renewalVault (inventory : Inventory) : Vault where
  catalog := (buildCatalog renewalPrimitives inventory "catalog".toList some fun _ => none).toOption.map
    fun catalog => { catalog with defaultSigningIdentityId := some "old".toList }
  secrets := fun secret => (inventory.deviceSigningKeys.find? fun key =>
    key.keyId == secret.reference).map (·.privateKeyDer)
  issued := fun _ => none
  history := []

/-- Operations that succeed, with references of different lengths. -/
def serveRenewal (vault : Vault) : (op : VaultOp) → Option (VaultAnswer op × Vault)
  | .generate mark =>
    let free := ((List.range 4).map fun length => List.replicate (length + 1) 'r').find?
      fun reference => (vault.issued reference).isNone
    free.map fun reference => (reference, { vault with
      issued := Function.update vault.issued reference (some (0, mark)) })
  | op => Vault.serve renewalPrimitives 0 vault op

theorem serveRenewal_sound {before after : Vault} {op : VaultOp} {answer : VaultAnswer op}
    (served : serveRenewal before op = some (answer, after)) :
    Vault.effect renewalPrimitives 0 before op answer after := by
  cases op with
  | generate mark =>
    obtain ⟨reference, free, same⟩ := Option.map_eq_some_iff.mp served
    cases same
    exact ⟨by simpa using List.find?_some free, rfl⟩
  | _ =>
    have direct : Vault.serve renewalPrimitives 0 before _ = some (answer, after) := served
    exact (Vault.serve_sound direct).1

def saveRenewal (inventory : Inventory) (vault : Vault) : Option Vault :=
  match (storeInventoryAsCatalog renewalPrimitives Vault.inOrder inventory "catalog".toList).run
      serveRenewal vault with
  | some (.ok (), after) => some after
  | _ => none

theorem saves_of_saveRenewal {inventory : Inventory} {before after : Vault}
    (saved : saveRenewal inventory before = some after) :
    SavesInventory renewalPrimitives inventory before after := by
  unfold saveRenewal at saved
  split at saved
  · rename_i ran
    cases saved
    refine ⟨0, Vault.inOrder, "catalog".toList, Program.ends_of_run ?_ ran⟩
    intro _ _ _ _ served
    exact serveRenewal_sound served
  · cases saved

/-- The inventories and the stores of a renewal, with other certificates before the renewed
one. -/
def renewed (others : List EnrolledCertificate) :
    Option (Inventory × Inventory × Vault × Vault) := do
  let inventory := renewalInventory others
  let journaled ← (renewalCall.journal renewalPrimitives.toCertificatePrimitives
    inventory).toOption
  let committed ← (renewalCall.commit renewalPrimitives.toCertificatePrimitives acceptChain
    renewalAnswer 50 inventory).toOption
  let middle ← saveRenewal journaled (renewalVault inventory)
  let after ← saveRenewal committed middle
  return (journaled, committed, middle, after)

/-- What a run of the renewal consists of. -/
structure RenewalRun (others : List EnrolledCertificate) (journaled committed : Inventory)
    (middle after : Vault) : Prop where
  journal : renewalCall.journal renewalPrimitives.toCertificatePrimitives
    (renewalInventory others) = .ok journaled
  first : SavesInventory renewalPrimitives journaled (renewalVault (renewalInventory others)) middle
  commit : renewalCall.commit renewalPrimitives.toCertificatePrimitives acceptChain
    renewalAnswer 50 (renewalInventory others) = .ok committed
  second : SavesInventory renewalPrimitives committed middle after

theorem renewalRun_of_renewed {others : List EnrolledCertificate}
    {outcome : Inventory × Inventory × Vault × Vault} (ran : renewed others = some outcome) :
    RenewalRun others outcome.1 outcome.2.1 outcome.2.2.1 outcome.2.2.2 := by
  obtain ⟨journaled, journal, ran⟩ := Option.bind_eq_some_iff.mp ran
  obtain ⟨committed, commit, ran⟩ := Option.bind_eq_some_iff.mp ran
  obtain ⟨middle, first, ran⟩ := Option.bind_eq_some_iff.mp ran
  obtain ⟨after, second, ran⟩ := Option.bind_eq_some_iff.mp ran
  cases ran
  exact ⟨Except.toOption_eq_some.mp journal, saves_of_saveRenewal first,
    Except.toOption_eq_some.mp commit, saves_of_saveRenewal second⟩

/-- The default of a catalog. -/
def Vault.defaultId (vault : Vault) : Option Text :=
  vault.catalog.bind (·.defaultSigningIdentityId)

/-- What is read of a run: the default before and after it, and the replacement. -/
def renewedDefaults (others : List EnrolledCertificate) :
    Option (Option Text × Option Text × Option EnrolledCertificate) :=
  (renewed others).map fun outcome => ((renewalVault (renewalInventory others)).defaultId,
    outcome.2.2.2.defaultId, outcome.2.1.enrolledCertificates.getLast?)

/-- The key identity of the renewed certificate. -/
def oldIdentity : SigningKeyIdentity where
  publicKeyFingerprint := sha256Identifier renewalPrimitives.toPrimitives [1]
  signerId := some renewalMetadata.publicSignerId
  orgId := none
  deviceId := some renewalMetadata.publicDeviceId
  hostedBinding := none

theorem renewalVault_chosen : ∃ catalog, (renewalVault (renewalInventory [])).catalog =
    some catalog ∧ catalog.validate renewalPrimitives = .ok () ∧
      ∃ row ∈ catalog.signingIdentities, catalog.defaultSigningIdentityId = some row.id ∧
        row.certificateKeyIdentity renewalPrimitives = .ok oldIdentity := by
  have read : (renewalVault (renewalInventory [])).catalog.any (fun catalog =>
      (catalog.validate renewalPrimitives).toOption == some () &&
        catalog.signingIdentities.any fun row =>
          catalog.defaultSigningIdentityId == some row.id &&
            (row.certificateKeyIdentity renewalPrimitives).toOption == some oldIdentity) = true :=
                by
    decide +kernel
  obtain ⟨catalog, published, holds⟩ := Option.any_eq_true _ _ |>.mp read
  obtain ⟨valid, holds⟩ := Bool.and_eq_true_iff.mp holds
  obtain ⟨row, member, holds⟩ := List.any_eq_true.mp holds
  obtain ⟨default, own⟩ := Bool.and_eq_true_iff.mp holds
  exact ⟨catalog, published, Except.toOption_eq_some.mp (eq_of_beq valid), row, member,
    eq_of_beq default, Except.toOption_eq_some.mp (eq_of_beq own)⟩

/-- The only active certificate is renewed: the replacement is the default, and the chosen
key is kept. -/
theorem sole_certificate_renewed : ∃ journaled committed middle after,
    RenewalRun [] journaled committed middle after ∧
      after.defaultId = some "new".toList ∧
      ChoiceKept renewalPrimitives oldIdentity after.catalog := by
  have read : renewedDefaults [] = some (some "old".toList, some "new".toList,
      some (renewalCertificate "new" "key" 6 1)) := by decide +kernel
  obtain ⟨outcome, ran, shown⟩ := Option.map_eq_some_iff.mp read
  obtain ⟨before, shown⟩ := Prod.mk.inj shown
  obtain ⟨-, last⟩ := Prod.mk.inj shown
  have run := renewalRun_of_renewed ran
  have keeps : (renewed []).all (fun outcome =>
      KeepsChoice renewalPrimitives oldIdentity.publicKeyFingerprint
          (renewalVault (renewalInventory [])).catalog outcome.1 &&
        KeepsChoice renewalPrimitives oldIdentity.publicKeyFingerprint outcome.2.2.1.catalog
          outcome.2.1) = true := by decide +kernel
  rw [ran] at keeps
  obtain ⟨first, second⟩ := Bool.and_eq_true_iff.mp keeps
  have steps : Relation.ReflTransGen
      (KeepingSave renewalPrimitives oldIdentity.publicKeyFingerprint)
      (renewalVault (renewalInventory [])) outcome.2.2.2 :=
    .tail (.single ⟨_, of_decide_eq_true first, run.first⟩)
      ⟨_, of_decide_eq_true second, run.second⟩
  obtain ⟨catalog, published, valid, row, member, default, own⟩ := renewalVault_chosen
  obtain ⟨renewal, kept⟩ := default_choice_kept renewalPrimitives acceptChain
  exact ⟨_, _, _, _, run, (renewal _ _ _ renewalCall renewalAnswer 50 _ _ _ _ before run.journal
      run.first run.commit last run.second).mpr (by decide +kernel),
    kept _ _ catalog row oldIdentity published valid member default own steps⟩

/-- Another active certificate stands before the renewed one: the default is forgotten while the
renewal is pending, and then moves to the other certificate, of another key. -/
theorem renewal_moves_default : ∃ journaled committed middle after,
    RenewalRun [renewalCertificate "other" "other-key" 7 2] journaled committed middle after ∧
      (renewalVault (renewalInventory
        [renewalCertificate "other" "other-key" 7 2])).defaultId = some "old".toList ∧
      committed.enrolledCertificates.getLast? = some (renewalCertificate "new" "key" 6 1) ∧
      after.defaultId = some "other".toList := by
  have read : renewedDefaults [renewalCertificate "other" "other-key" 7 2] =
      some (some "old".toList, some "other".toList,
        some (renewalCertificate "new" "key" 6 1)) := by decide +kernel
  obtain ⟨outcome, ran, shown⟩ := Option.map_eq_some_iff.mp read
  obtain ⟨before, shown⟩ := Prod.mk.inj shown
  obtain ⟨moved, last⟩ := Prod.mk.inj shown
  exact ⟨_, _, _, _, renewalRun_of_renewed ran, before, last, moved⟩

end ZManager.Identity
