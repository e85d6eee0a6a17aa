import Trafodion.GrantChains
import Trafodion.PrivMgrPrivileges
import Trafodion.Runs

/-!
# The chains of object privileges

A privilege in a row of OBJECT_PRIVILEGES is supported when a chain of rows with grant
option leads from it back to a row granted by the system. A grant limits the request to
what its grantor holds with grant option, and so extends chains. A revoke does not look
at the rows that rest on the one it changes.
-/
namespace Trafodion.PrivMgr

open List GrantChains Runs

variable {catalog : Catalog} {object : Object} {table table' : ObjectPrivsTable}
  {request : Request}

/-! ### The privileges of a grantor -/

lemma mem_wgo_foldl_union {b : PrivType} (rows : List (Sigma fun _ : RowKey => CoreDesc))
    (privs : CoreDesc) : b ∈ (rows.foldl (fun privs row => privs.unionOfPrivs row.2) privs).wgo ↔
      b ∈ privs.wgo ∨ ∃ row ∈ rows, b ∈ row.2.wgo := by
  induction rows generalizing privs with
  | nil => simp
  | cons row rows ih =>
    rw [foldl_cons, ih]
    simp [CoreDesc.unionOfPrivs, or_assoc]

variable {privs : CoreDesc} {key : RowKey}

lemma mem_getRowsForGrantee {uid : ObjectUID} {granteeID : AuthID} :
    ⟨key, privs⟩ ∈ getRowsForGrantee catalog table uid granteeID ↔
      table.lookup key = some privs ∧ key.objectUID = uid ∧
        key.granteeID ∈ catalog.listOfIDs granteeID := by
  simp only [getRowsForGrantee, mem_filter, decide_eq_true_eq]
  exact and_congr_left' AList.mem_lookup_iff.symm

def Holds (table : ObjectPrivsTable) (uid : ObjectUID) (b : PrivType) : Set RowKey :=
  {key | key.objectUID = uid ∧
    ∃ privs, table.lookup key = some privs ∧ (b ∈ privs.priv ∨ b ∈ privs.wgo)}

def Grantable (table : ObjectPrivsTable) (uid : ObjectUID) (b : PrivType) : Set RowKey :=
  {key | key.objectUID = uid ∧ ∃ privs, table.lookup key = some privs ∧ b ∈ privs.wgo}

lemma grantable_subset_holds (table : ObjectPrivsTable) (uid : ObjectUID) (b : PrivType) :
    Grantable table uid b ⊆ Holds table uid b := by
  rintro key ⟨huid, privs, hkey, hb⟩
  exact ⟨huid, privs, hkey, .inr hb⟩

def Catalog.Authorises (catalog : Catalog) (s r : RowKey) : Prop :=
  s.granteeID ∈ catalog.listOfIDs r.grantorID

lemma exists_authorising {uid : ObjectUID} {grantorID : AuthID} {b : PrivType}
    (hsystem : grantorID ≠ systemAuthID)
    (hb : b ∈ (getPrivsFromAllGrantors catalog table uid grantorID).wgo) :
    ∃ s ∈ Grantable table uid b, s.granteeID ∈ catalog.listOfIDs grantorID := by
  rw [getPrivsFromAllGrantors, if_neg hsystem, mem_wgo_foldl_union] at hb
  obtain hemp | ⟨⟨key, privs⟩, hrow, hbwgo⟩ := hb
  · exact absurd hemp (Finset.notMem_empty b)
  · obtain ⟨hkey, huid, hgrantee⟩ := mem_getRowsForGrantee.1 hrow
    exact ⟨key, ⟨huid, privs, hkey, hbwgo⟩, hgrantee⟩

/-- The bit is supported in the row: a chain of rows that hold it with grant option leads
back to a row granted by the system. -/
def Supported (catalog : Catalog) (table : ObjectPrivsTable) (uid : ObjectUID)
    (b : PrivType) : RowKey → Prop :=
  Backed (fun key => key.grantorID = systemAuthID) catalog.Authorises (Grantable table uid b)

def NoOrphans (catalog : Catalog) (uid : ObjectUID) (table : ObjectPrivsTable) : Prop :=
  ∀ b, ∀ key ∈ Holds table uid b, Supported catalog table uid b key

/-! ### The rows of the object after a command -/

lemma lookup_updateWhere (table : ObjectPrivsTable) (key k : RowKey) (privs : CoreDesc) :
    (table.updateWhere key privs).lookup k =
      if k = key ∧ (table.lookup key).isSome then some privs else table.lookup k := by
  unfold ObjectPrivsTable.updateWhere
  cases hkey : table.lookup key with
  | none => simp
  | some old => simp [FiniteMaps.lookup_insert_eq]

lemma lookup_updateWhere_of_ne {key k : RowKey} (h : k ≠ key) (privs : CoreDesc) :
    (table.updateWhere key privs).lookup k = table.lookup k := by
  rw [lookup_updateWhere, if_neg fun hk => h hk.1]

variable {usage : ObjectUsage}

lemma dealWithViews_levels {grantorID : AuthID} {cmd : PrivCommand} {n : ℕ}
    {affected affected' : List ObjectUsage}
    (h : dealWithViews catalog table grantorID cmd n usage affected = .ok affected') :
    ∃ views, affected' = affected ++ views ∧ ∀ v ∈ views,
      v.objectType = .view ∧ catalog.levels v.objectUID < catalog.levels usage.objectUID := by
  induction n generalizing usage affected affected' with
  | zero =>
    cases h
    exact ⟨[], (append_nil _).symm, forall_mem_nil _⟩
  | succ n ih =>
    refine foldlM_invariant (I := fun l => ∃ views, l = affected ++ views ∧ ∀ v ∈ views,
      v.objectType = .view ∧ catalog.levels v.objectUID < catalog.levels usage.objectUID)
      ?_ ⟨[], (append_nil _).symm, forall_mem_nil _⟩ h
    rintro _ view hview l' ⟨views, rfl, hviews⟩ hl'
    have hlt := catalog.levels_lt _ view hview
    dsimp only at hl'
    split at hl'
    · cases hl'
    split at hl'
    · cases hl'
      exact ⟨views, rfl, hviews⟩
    · obtain ⟨above, rfl, habv⟩ := ih hl'
      refine ⟨views ++ ([view.usage _] ++ above), by rw [append_assoc, append_assoc], ?_⟩
      rw [forall_mem_append, forall_mem_append, forall_mem_singleton]
      exact ⟨hviews, ⟨rfl, hlt⟩, fun v hv => ⟨(habv v hv).1, (habv v hv).2.trans hlt⟩⟩

lemma getAffectedObjects_ok {grantorID : AuthID} {cmd : PrivCommand} {objs : List ObjectUsage}
    (h : getAffectedObjects catalog table grantorID usage cmd = .ok objs) :
    ∃ views, objs = usage :: views ∧ ∀ v ∈ views, v.objectUID ≠ usage.objectUID := by
  obtain ⟨_, -, hviews⟩ := bind_eq_ok.1 h
  obtain ⟨views, rfl, hlt⟩ := dealWithViews_levels hviews
  exact ⟨views, rfl, fun v hv he => absurd (hlt v hv).2 (he ▸ lt_irrefl _)⟩

lemma updateRevokedRow_lookup {grantorID : AuthID}
    (h : updateRevokedRow grantorID table usage = .ok table') (k : RowKey) :
    table'.lookup k = table.lookup k ∨ k = usage.rowKey grantorID ∧ (table.lookup k).isSome ∧
      table'.lookup k = if usage.updatedPrivs.isNull then none else some usage.updatedPrivs := by
  unfold updateRevokedRow at h
  split at h
  · cases h
  by_cases hk : k = usage.rowKey grantorID ∧ (table.lookup k).isSome
  · obtain ⟨rfl, hsome⟩ := hk
    refine .inr ⟨rfl, hsome, ?_⟩
    split at h <;> cases h
    · next hnull => rw [if_pos hnull, AList.lookup_erase]
    · next hnull => rw [if_neg hnull, lookup_updateWhere, if_pos ⟨rfl, hsome⟩]
  · refine .inl ?_
    split at h <;> cases h
    · rw [FiniteMaps.lookup_erase_eq]
      split
      · next hkey => exact (Option.not_isSome_iff_eq_none.1 fun hsome => hk ⟨hkey, hsome⟩).symm
      · rfl
    · rw [lookup_updateWhere, if_neg]
      rintro ⟨rfl, hsome⟩
      exact hk ⟨rfl, hsome⟩

section
variable {grantorID : AuthID} {views : List ObjectUsage}
  (h : ∀ v ∈ views, v.objectUID ≠ key.objectUID)
include h

lemma lookup_updateGrantedRows :
    (updateGrantedRows grantorID table views).lookup key = table.lookup key := by
  induction views generalizing table with
  | nil => rfl
  | cons v views ih =>
    rw [forall_mem_cons] at h
    refine (ih h.2).trans (lookup_updateWhere_of_ne ?_ _)
    rintro rfl
    exact h.1 rfl

lemma lookup_updateRevokedRows (hok : updateRevokedRows grantorID table views = .ok table') :
    table'.lookup key = table.lookup key := by
  refine foldlM_invariant (I := fun t => t.lookup key = table.lookup key) ?_ rfl hok
  intro t v hv t' ht ht'
  obtain hsame | ⟨rfl, -⟩ := updateRevokedRow_lookup ht' key
  · exact hsame.trans ht
  · exact absurd rfl (h v hv)

end

/-- For a view the row that is written is the one granted by the system; here that is
the command's own row, or there is no such row. -/
def Request.WritesOwnRow (request : Request) (object : Object) (table : ObjectPrivsTable) :
    Prop :=
  object.objectType = .view → request.grantorID = systemAuthID ∨
    table.lookup (request.rowKey object) = none ∨
    table.lookup ⟨object.objectUID, systemAuthID, request.granteeID⟩ = none

instance (request : Request) (object : Object) (table : ObjectPrivsTable) :
    Decidable (request.WritesOwnRow object table) :=
  inferInstanceAs (Decidable (_ → _))

lemma Request.rowKey_usage (privs privs' : CoreDesc) (h : request.WritesOwnRow object table)
    (hrow : table.lookup (request.rowKey object) ≠ none) :
    (request.usage object privs privs').rowKey request.grantorID = request.rowKey object ∨
      table.lookup ((request.usage object privs privs').rowKey request.grantorID) = none := by
  change RowKey.mk _ (if object.objectType = .view then systemAuthID else _) _ = _ ∨
    table.lookup (RowKey.mk _ (if object.objectType = .view then systemAuthID else _) _) = none
  by_cases hview : object.objectType = .view
  · rw [if_pos hview]
    obtain hsystem | hnone | hnone := h hview
    · exact .inl (by rw [← hsystem]; rfl)
    · exact absurd hnone hrow
    · exact .inr hnone
  · rw [if_neg hview]
    exact .inl rfl

lemma privsToProcess_ok {wgo gof : Bool} {noPrivs : Status}
    (h : privsToProcess catalog object table request wgo gof noPrivs = .ok privs) :
    ∃ requested, convertPrivsToDesc object.objectType request.isAllSpecified wgo
        gof request.privsList = .ok requested ∧ privs = requested.limitToGrantable
        (getPrivsFromAllGrantors catalog table object.objectUID request.grantorID) := by
  obtain ⟨requested, hrequested, h⟩ := bind_eq_ok.1 h
  refine ⟨requested, hrequested, ?_⟩
  dsimp only at h
  split at h
  · cases h
  split at h <;> cases h
  rfl

/-- A grant changes at most the row of its grantor and grantee, and adds to it. -/
theorem grantPrivsToGrantee_rows (hown : request.WritesOwnRow object table)
    (h : grantPrivsToGrantee catalog object table request privs = .ok table') (k : RowKey)
    (huid : k.objectUID = object.objectUID) :
    table'.lookup k = table.lookup k ∨ k = request.rowKey object ∧
      table'.lookup k = some ((table.lookup k).elim privs privs.unionOfPrivs) := by
  unfold grantPrivsToGrantee at h
  split at h
  · next hnone =>
    cases h
    rw [FiniteMaps.lookup_insert_eq]
    split
    · next hk =>
      subst hk
      rw [hnone]
      exact .inr ⟨rfl, rfl⟩
    · exact .inl rfl
  · next current hcur =>
    split at h
    · cases h
      exact .inl rfl
    obtain ⟨listOfObjects, hlist, h⟩ := bind_eq_ok.1 h
    cases h
    obtain ⟨views, rfl, hviews⟩ := getAffectedObjects_ok hlist
    set usage := request.usage object current (privs.unionOfPrivs current)
    -- the views are other objects, so only the first write concerns this object
    have hrows : (updateGrantedRows request.grantorID table (usage :: views)).lookup k =
        (table.updateWhere (usage.rowKey request.grantorID) usage.updatedPrivs).lookup k :=
      lookup_updateGrantedRows fun v hv he => hviews v hv (he.trans huid)
    rw [hrows, lookup_updateWhere]
    split
    · next hk =>
      obtain hkey | hkey := request.rowKey_usage current (privs.unionOfPrivs current) hown
        (by simp [hcur])
      · obtain rfl : k = request.rowKey object := hk.1.trans hkey
        rw [hcur]
        exact .inr ⟨rfl, rfl⟩
      · exact absurd hk.2 (by simp [usage, hkey])
    · exact .inl rfl

/-- A revoke changes at most the row of its grantor and grantee, and only takes away the
privileges it was given. -/
theorem revokePrivsFromGrantee_rows (hown : request.WritesOwnRow object table)
    (h : revokePrivsFromGrantee catalog object table request privs = .ok table') (k : RowKey)
    (huid : k.objectUID = object.objectUID) :
    table'.lookup k = table.lookup k ∨ k = request.rowKey object ∧
      ∃ current kept, table.lookup k = some current ∧
        kept = privs.complement.intersectionOfPrivs current ∧
        table'.lookup k = if kept.isNull then none else some kept := by
  unfold revokePrivsFromGrantee at h
  split at h
  · cases h
    exact .inl rfl
  · next current hcur =>
    obtain ⟨listOfObjects, hlist, h⟩ := bind_eq_ok.1 h
    obtain ⟨views, rfl, hviews⟩ := getAffectedObjects_ok hlist
    rw [updateRevokedRows, foldlM_cons, bind_eq_ok] at h
    obtain ⟨table₁, hfst, hrest⟩ := h
    -- the views are other objects, so only the first write concerns this object
    have hrows : table'.lookup k = table₁.lookup k :=
      lookup_updateRevokedRows (fun v hv he => hviews v hv (he.trans huid)) hrest
    rw [hrows]
    obtain hsame | ⟨hk, hsome, hwrit⟩ := updateRevokedRow_lookup hfst k
    · exact .inl hsame
    obtain hkey | hkey := request.rowKey_usage current
      (privs.complement.intersectionOfPrivs current) hown (by simp [hcur])
    · rw [hkey] at hk
      exact .inr ⟨hk, current, _, hk ▸ hcur, rfl, hwrit⟩
    · rw [hk, hkey] at hsome
      cases hsome

/-! ### Chains across commands -/

lemma noOrphans_grant (horph : NoOrphans catalog object.objectUID table)
    (hgrantable : ∀ b, b ∈ privs.priv ∨ b ∈ privs.wgo →
      b ∈ (getPrivsFromAllGrantors catalog table object.objectUID request.grantorID).wgo)
    (hrows : ∀ k : RowKey, k.objectUID = object.objectUID →
      table'.lookup k = table.lookup k ∨ k = request.rowKey object ∧
        table'.lookup k = some ((table.lookup k).elim privs privs.unionOfPrivs)) :
    NoOrphans catalog object.objectUID table' := by
  intro b
  -- no row loses a grant option, so every old chain is still there
  have hkept : Grantable table object.objectUID b ⊆ Grantable table' object.objectUID b := by
    rintro k ⟨huid, d, hd, hb⟩
    obtain hsame | ⟨-, hadded⟩ := hrows k huid
    · exact ⟨huid, d, hsame.trans hd, hb⟩
    · rw [hd] at hadded
      exact ⟨huid, _, hadded, Finset.mem_union_right _ hb⟩
  rintro k ⟨huid, d, hd, hb⟩
  have hold : ∀ d₀, table.lookup k = some d₀ → b ∈ d₀.priv ∨ b ∈ d₀.wgo →
      Supported catalog table' object.objectUID b k :=
    fun d₀ hd₀ hb₀ => (horph b k ⟨huid, d₀, hd₀, hb₀⟩).mono hkept
  -- a new bit rests on the row its grantor holds with grant option
  have hnew : k = request.rowKey object → b ∈ privs.priv ∨ b ∈ privs.wgo →
      Supported catalog table' object.objectUID b k := by
    rintro rfl hb
    by_cases hsystem : request.grantorID = systemAuthID
    · exact .root hsystem
    · obtain ⟨s, hs, hauth⟩ := exists_authorising hsystem (hgrantable b hb)
      have hsupported := horph b s (grantable_subset_holds table _ b hs)
      exact .next (hkept hs) hauth (hsupported.mono hkept)
  obtain hsame | ⟨hk, hadded⟩ := hrows k huid
  · exact hold d (hsame.symm.trans hd) hb
  · obtain rfl := Option.some.inj (hd.symm.trans hadded)
    cases hcur : table.lookup k with
    | none =>
      rw [hcur] at hb
      exact hnew hk hb
    | some current =>
      rw [hcur] at hb
      simp only [Option.elim_some, CoreDesc.unionOfPrivs, Finset.mem_union] at hb
      obtain (hp | hc) | (hp | hc) := hb
      · exact hnew hk (.inl hp)
      · exact hold current hcur (.inl hc)
      · exact hnew hk (.inr hp)
      · exact hold current hcur (.inr hc)

/-- Nobody but the system has granted a row with the privilege in the name of the grantee,
as long as the grantee holds it with grant option from the row of the request. -/
def Request.Unused (request : Request) (catalog : Catalog) (object : Object)
    (table : ObjectPrivsTable) (b : PrivType) : Prop :=
  request.rowKey object ∈ Grantable table object.objectUID b →
    ∀ r ∈ Holds table object.objectUID b, r.grantorID ≠ systemAuthID →
      ¬ catalog.Authorises (request.rowKey object) r

lemma noOrphans_revoke (horph : NoOrphans catalog object.objectUID table)
    (hunused : ∀ b ∈ privs.wgo, request.Unused catalog object table b)
    (hrows : ∀ k : RowKey, k.objectUID = object.objectUID →
      table'.lookup k = table.lookup k ∨ k = request.rowKey object ∧
        ∃ current kept, table.lookup k = some current ∧
          kept = privs.complement.intersectionOfPrivs current ∧
          table'.lookup k = if kept.isNull then none else some kept) :
    NoOrphans catalog object.objectUID table' := by
  rintro b k ⟨huid, d, hd, hb⟩
  -- what the row holds now it held before
  have hheld : k ∈ Holds table object.objectUID b := by
    obtain hsame | ⟨-, current, kept, hcur, rfl, hkept⟩ := hrows k huid
    · exact ⟨huid, d, hsame.symm.trans hd, hb⟩
    · rw [hd] at hkept
      split at hkept <;> cases hkept
      refine ⟨huid, current, hcur, ?_⟩
      simp only [CoreDesc.intersectionOfPrivs, Finset.mem_inter] at hb
      exact hb.imp And.right And.right
  refine (horph b k hheld).remove (grantable_subset_holds table _ b) ?_ hheld
  rintro s ⟨hsuid, c, hc, hbc⟩ hlost r hr hbase
  obtain hsame | ⟨rfl, current, kept, hcur, rfl, hkept⟩ := hrows s hsuid
  · exact absurd ⟨hsuid, c, hsame.trans hc, hbc⟩ hlost
  · obtain rfl := Option.some.inj (hc.symm.trans hcur)
    have hrevoked : b ∈ privs.wgo := by
      by_contra hnot
      have hbkept : b ∈ (privs.complement.intersectionOfPrivs c).wgo := by
        simp [CoreDesc.intersectionOfPrivs, CoreDesc.complement, hnot, hbc]
      have hnonnull : ¬ (privs.complement.intersectionOfPrivs c).isNull :=
        fun hnull => Finset.notMem_empty b (hnull.2 ▸ hbkept)
      rw [if_neg hnonnull] at hkept
      exact hlost ⟨hsuid, _, hkept, hbkept⟩
    exact hunused b hrevoked ⟨hsuid, c, hc, hbc⟩ r hr hbase

inductive Command
  | grant (request : Request) (isWGOSpecified : Bool)
  | revoke (request : Request) (isGOFSpecified : Bool)
  deriving DecidableEq, Repr

def Command.grantorID : Command → AuthID
  | .grant request _ => request.grantorID
  | .revoke request _ => request.grantorID

def Command.execute (catalog : Catalog) (object : Object) (table : ObjectPrivsTable) :
    Command → Except Status ObjectPrivsTable
  | .grant request isWGOSpecified =>
    grantObjectPriv catalog object table request isWGOSpecified
  | .revoke request isGOFSpecified =>
    revokeObjectPriv catalog object table request isGOFSpecified

def Command.step (catalog : Catalog) (object : Object) (table : ObjectPrivsTable)
    (command : Command) : ObjectPrivsTable :=
  match command.execute catalog object table with
  | .ok table' => table'
  | .error _ => table

/-- The command writes its own row, and a revoke takes no grant option away that a row was
granted by. -/
def Command.KeepsChains (catalog : Catalog) (object : Object) (table : ObjectPrivsTable) :
    Command → Prop
  | .grant request _ => request.WritesOwnRow object table
  | .revoke request isGOFSpecified => request.WritesOwnRow object table ∧
      ∀ requested, convertPrivsToDesc object.objectType request.isAllSpecified true
          isGOFSpecified request.privsList = .ok requested →
        ∀ b ∈ requested.wgo, request.Unused catalog object table b

lemma grantObjectPriv_noOrphans {wgo : Bool}
    (horph : NoOrphans catalog object.objectUID table) (hown : request.WritesOwnRow object table)
    (h : grantObjectPriv catalog object table request wgo = .ok table') :
    NoOrphans catalog object.objectUID table' := by
  unfold grantObjectPriv at h
  split at h
  · cases h
  split at h
  · cases h
    exact horph
  obtain ⟨privs, hprivs, h⟩ := bind_eq_ok.1 h
  obtain ⟨requested, -, rfl⟩ := privsToProcess_ok hprivs
  refine noOrphans_grant horph (fun b hb => ?_) (grantPrivsToGrantee_rows hown h)
  exact hb.elim (fun hb => (Finset.mem_inter.1 hb).2) fun hb => (Finset.mem_inter.1 hb).2

lemma revokeObjectPriv_noOrphans {gof : Bool} (horph : NoOrphans catalog object.objectUID table)
    (hkeeps : (Command.revoke request gof).KeepsChains catalog object table)
    (h : revokeObjectPriv catalog object table request gof = .ok table') :
    NoOrphans catalog object.objectUID table' := by
  unfold revokeObjectPriv at h
  split at h
  · cases h
  obtain ⟨privs, hprivs, h⟩ := bind_eq_ok.1 h
  obtain ⟨requested, hrequested, rfl⟩ := privsToProcess_ok hprivs
  refine noOrphans_revoke horph (fun b hb => ?_) (revokePrivsFromGrantee_rows hkeeps.1 h)
  exact hkeeps.2 requested hrequested b (Finset.mem_inter.1 hb).1

lemma Command.step_noOrphans (cmd : Command) (horph : NoOrphans catalog object.objectUID table)
    (hkeeps : cmd.KeepsChains catalog object table) :
    NoOrphans catalog object.objectUID (cmd.step catalog object table) := by
  unfold Command.step
  split
  · next table' hok =>
    cases cmd with
    | grant request wgo => exact grantObjectPriv_noOrphans horph hkeeps hok
    | revoke request gof => exact revokeObjectPriv_noOrphans horph hkeeps hok
  · exact horph

/-- From a table whose rows of the object were all granted by the system, commands by any
users leave no row of the object without support, as long as no revoke takes away a grant
option that a row was granted by. -/
theorem commands_leave_no_orphans (catalog : Catalog) (object : Object)
    (table : ObjectPrivsTable) (commands : List Command)
    (hstart : ∀ key ∈ table.keys, key.objectUID = object.objectUID →
      key.grantorID = systemAuthID)
    (hkeeps : Guarded (Command.step catalog object) (fun table command =>
      command.KeepsChains catalog object table) table commands) :
    NoOrphans catalog object.objectUID (run (Command.step catalog object) table commands) := by
  refine hkeeps.invariant (fun t c ht hc => c.step_noOrphans ht hc) ?_
  rintro b key ⟨huid, privs, hkey, -⟩
  exact .root (hstart key ((FiniteMaps.mem_keys_iff table key).2 ⟨privs, hkey⟩) huid)

/-! ### A table with two users -/

def plainCatalog : Catalog where
  fetchRolesForUser _ := []
  viewsThatReferenceObject _ := []
  objectsThatViewReferences _ := []
  referencingTablesForConstraints _ := []
  objectPrivileges := 1
  levels _ := 0
  levels_lt _ _ h := absurd h not_mem_nil
  references _ _ h := absurd h not_mem_nil

def plainTable : Object := ⟨7, .baseTable⟩

def ownersGrant : ObjectPrivsTable :=
  AList.insert ⟨7, systemAuthID, 33333⟩ (setAllGrantPrivileges .baseTable true) ∅

def selectRequest (grantorID granteeID : AuthID) : Request :=
  ⟨grantorID, granteeID, false, [.select]⟩

theorem granted_and_revoked_no_orphans :
    NoOrphans plainCatalog 7 (run (Command.step plainCatalog plainTable) ownersGrant
      [.grant (selectRequest 33333 33334) true, .revoke (selectRequest 33333 33334) false]) := by
  refine commands_leave_no_orphans plainCatalog plainTable ownersGrant
    [.grant (selectRequest 33333 33334) true, .revoke (selectRequest 33333 33334) false]
    (by decide) ⟨nofun, ⟨nofun, ?_⟩, trivial⟩
  -- the only rows are the owner's and the one the owner granted
  rintro requested - b - - r ⟨-, privs, hr, -⟩ hsystem hauth
  have hkeys : r ∈ [⟨7, 33333, 33334⟩, ⟨7, systemAuthID, 33333⟩] := by
    have hr' := (FiniteMaps.mem_keys_iff _ r).2 ⟨privs, hr⟩
    exact hr'
  simp only [mem_cons, not_mem_nil, or_false] at hkeys
  obtain rfl | rfl := hkeys
  · revert hauth
    change ¬ ((33334 : AuthID) ∈ [publicAuthID, 33333])
    decide
  · exact hsystem rfl

/-- The owner grants with grant option, the grantee grants on, and the owner revokes: the
second grant stays and nothing supports it. -/
theorem revoke_leaves_orphan :
    ⟨7, 33334, 33335⟩ ∈ Holds (run (Command.step plainCatalog plainTable) ownersGrant
        [.grant (selectRequest 33333 33334) true, .grant (selectRequest 33334 33335) false,
          .revoke (selectRequest 33333 33334) false]) 7 .select ∧
      ¬ Supported plainCatalog (run (Command.step plainCatalog plainTable) ownersGrant
        [.grant (selectRequest 33333 33334) true, .grant (selectRequest 33334 33335) false,
          .revoke (selectRequest 33333 33334) false]) 7 .select ⟨7, 33334, 33335⟩ := by
  set final := run (Command.step plainCatalog plainTable) ownersGrant
    [.grant (selectRequest 33333 33334) true, .grant (selectRequest 33334 33335) false,
      .revoke (selectRequest 33333 33334) false] with hfinal
  have hentries : final.entries = [⟨⟨7, 33334, 33335⟩, ⟨{.select}, ∅⟩⟩,
        ⟨⟨7, systemAuthID, 33333⟩, setAllGrantPrivileges .baseTable true⟩] := by
    rw [hfinal]
    decide +kernel
  refine ⟨⟨rfl, ⟨{.select}, ∅⟩, AList.mem_lookup_iff.2 ?_, .inl (by decide)⟩,
    not_backed (by decide) ?_⟩
  · rw [hentries]
    exact mem_cons_self ..
  -- nobody holds the privilege with grant option as the second grantor or as PUBLIC
  · rintro s ⟨-, privs, hs, hb⟩ hauth
    have hmem := AList.mem_lookup_iff.1 hs
    rw [hentries] at hmem
    simp only [mem_cons, not_mem_nil, or_false, Sigma.mk.injEq] at hmem
    obtain ⟨rfl, hprivs⟩ | ⟨rfl, -⟩ := hmem
    · obtain rfl := eq_of_heq hprivs
      exact absurd hb (by decide)
    · revert hauth
      change ¬ ((33333 : AuthID) ∈ [publicAuthID, 33334])
      decide

end Trafodion.PrivMgr
