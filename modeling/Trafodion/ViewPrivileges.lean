import Trafodion.PrivilegeGrants

/-!
# Privileges of views

The owner of a view holds on the view what the owner holds on every object the view
references. `gatherViewPrivileges` recomputes that after a change. It intersects over the
referenced objects, but collects the privileges on them in variables that are not cleared
from one object to the next, so that what it returns are the privileges on the first
object.
-/
namespace Trafodion.PrivMgr

open List Command CoreDesc Gathering Runs

variable {catalog : Catalog} {object : Object} {table table' : ObjectPrivsTable}
  {grantorID : AuthID} {command : PrivCommand} {usage : ObjectUsage}

/-! ### Bits of descriptors -/

def CoreDesc.Has (d : CoreDesc) (grantable : Bool) (b : PrivType) : Prop :=
  b ∈ if grantable then d.wgo else d.priv

instance (d : CoreDesc) (grantable : Bool) (b : PrivType) : Decidable (d.Has grantable b) :=
  inferInstanceAs (Decidable (_ ∈ _))

namespace CoreDesc

variable {grantable : Bool} {b : PrivType}

@[simp] lemma not_has_empty : ¬ empty.Has grantable b := by
  cases grantable <;> exact Finset.notMem_empty b

variable {d other : CoreDesc}

@[simp] lemma has_unionOfPrivs :
    (d.unionOfPrivs other).Has grantable b ↔ d.Has grantable b ∨ other.Has grantable b := by
  cases grantable <;> exact Finset.mem_union

@[simp] lemma has_intersectionOfPrivs : (d.intersectionOfPrivs other).Has grantable b ↔
      d.Has grantable b ∧ other.Has grantable b := by
  cases grantable <;> exact Finset.mem_inter

lemma ext_has (h : ∀ grantable b, d.Has grantable b ↔ other.Has grantable b) : d = other :=
  CoreDesc.ext (Finset.ext (h false)) (Finset.ext (h true))

lemma isNull.not_has {d : CoreDesc} (h : d.isNull) : ¬ d.Has grantable b := by
  cases grantable with
  | false => exact fun hb => Finset.notMem_empty b (h.1 ▸ hb)
  | true => exact fun hb => Finset.notMem_empty b (h.2 ▸ hb)

def Within (d other : CoreDesc) : Prop := ∀ grantable b, d.Has grantable b → other.Has grantable b

end CoreDesc

/-! ### What an owner holds -/

def heldPrivs (catalog : Catalog) (table : ObjectPrivsTable) (uid : ObjectUID) (id : AuthID) :
    CoreDesc :=
  (getRowsForGrantee catalog table uid id).foldl (fun privs row => privs.unionOfPrivs row.2)
    .empty

/-- The privileges of a row with the changes made, each to the row of its key. -/
def changedPrivs (key : ObjectUsage → RowKey) (changes : List ObjectUsage)
    (row : Sigma fun _ : RowKey => CoreDesc) : CoreDesc :=
  changes.foldl (fun privs v => if row.1 = key v then v.updatedPrivs else privs) row.2

def heldAfter (catalog : Catalog) (table : ObjectPrivsTable) (key : ObjectUsage → RowKey)
    (changes : List ObjectUsage) (uid : ObjectUID) (id : AuthID) : CoreDesc :=
  (getRowsForGrantee catalog table uid id).foldl
    (fun privs row => privs.unionOfPrivs (changedPrivs key changes row)) .empty

/-- The row of a changed object that the grantor of the command granted. For a view this is not
the row that is written: its owner has the privileges from `_SYSTEM`. -/
def ObjectUsage.grantorsKey (grantorID : AuthID) (usage : ObjectUsage) : RowKey :=
  ⟨usage.objectUID, grantorID, usage.objectOwner⟩

/-- What the owner of a view should hold on it once the changes are made: the table privileges
that the owner then holds on every object the view references. -/
def viewPrivs (catalog : Catalog) (table : ObjectPrivsTable) (grantorID : AuthID)
    (changes : List ObjectUsage) (view : ViewUsage) : CoreDesc :=
  (catalog.objectsThatViewReferences view.viewUID).foldl (fun privs uid =>
    privs.intersectionOfPrivs
      (heldAfter catalog table (ObjectUsage.rowKey grantorID) changes uid view.viewOwner))
    (setAllGrantPrivileges .view true)

section Bits

variable {grantable : Bool} {b : PrivType} {uid : ObjectUID} {id : AuthID}

variable {view : ViewUsage} {first : ObjectUID} {α : Type*} (f : α → CoreDesc) (rows : List α)
  (privs : CoreDesc)

lemma has_foldl_union :
    (rows.foldl (fun privs row => privs.unionOfPrivs (f row)) privs).Has grantable b ↔
      privs.Has grantable b ∨ ∃ row ∈ rows, (f row).Has grantable b := by
  induction rows generalizing privs with
  | nil => simp
  | cons row rows ih => simp [ih, or_assoc]

lemma has_foldl_intersection :
    (rows.foldl (fun privs row => privs.intersectionOfPrivs (f row)) privs).Has grantable b ↔
      privs.Has grantable b ∧ ∀ row ∈ rows, (f row).Has grantable b := by
  induction rows generalizing privs with
  | nil => simp
  | cons row rows ih => simp [ih, and_assoc]

lemma has_heldPrivs : (heldPrivs catalog table uid id).Has grantable b ↔
      ∃ key privs, table.lookup key = some privs ∧ key.objectUID = uid ∧
        key.granteeID ∈ catalog.listOfIDs id ∧ privs.Has grantable b := by
  simp [heldPrivs, has_foldl_union, mem_getRowsForGrantee, and_assoc]

variable {changes : List ObjectUsage}

lemma has_heldAfter {key : ObjectUsage → RowKey} :
    (heldAfter catalog table key changes uid id).Has grantable b ↔
      ∃ k privs, table.lookup k = some privs ∧ k.objectUID = uid ∧
        k.granteeID ∈ catalog.listOfIDs id ∧ (changedPrivs key changes ⟨k, privs⟩).Has grantable b := by
  simp [heldAfter, has_foldl_union, mem_getRowsForGrantee, and_assoc]

lemma has_viewPrivs : (viewPrivs catalog table grantorID changes view).Has grantable b ↔
      (setAllGrantPrivileges .view true).Has grantable b ∧
        ∀ uid ∈ catalog.objectsThatViewReferences view.viewUID,
          (heldAfter catalog table (ObjectUsage.rowKey grantorID) changes uid
            view.viewOwner).Has grantable b :=
  has_foldl_intersection ..

/-! ### What the loop returns -/

lemma currentPrivs_eq (changes : List ObjectUsage) (row : Sigma fun _ : RowKey => CoreDesc) :
    currentPrivs grantorID changes row =
      changedPrivs (ObjectUsage.grantorsKey grantorID) changes row := by
  obtain ⟨⟨kuid, kgrantor, kgrantee⟩, privs⟩ := row
  simp only [currentPrivs, changedPrivs, ObjectUsage.grantorsKey, RowKey.mk.injEq, eq_comm]

lemma has_summarizeCurrent (summ : CoreDesc × CoreDesc) :
    (summarizeCurrentAndOriginalPrivs catalog table grantorID uid id changes
        summ).2.Has grantable b ↔ summ.2.Has grantable b ∨
        (heldAfter catalog table (ObjectUsage.grantorsKey grantorID) changes uid id).Has
          grantable b := by
  have hrows : ∀ (rows : List (Sigma fun _ : RowKey => CoreDesc)) (acc : CoreDesc × CoreDesc),
      (rows.foldl (fun acc row => (acc.1.unionOfPrivs row.2,
          acc.2.unionOfPrivs (currentPrivs grantorID changes row))) acc).2 =
        rows.foldl (fun privs row => privs.unionOfPrivs
          (changedPrivs (ObjectUsage.grantorsKey grantorID) changes row)) acc.2 := by
    intro rows
    induction rows with
    | nil => exact fun _ => rfl
    | cons row rows ih =>
      intro acc
      rw [foldl_cons, ih, foldl_cons, currentPrivs_eq]
  rw [summarizeCurrentAndOriginalPrivs, hrows, heldAfter, has_foldl_union, has_foldl_union]
  simp

/-- Once the intersection is within what was collected, further objects do not change it:
the collected privileges only grow. -/
theorem Gathering.foldl_current (uids : List ObjectUID)
    (g : Gathering) (h : g.summarizedCurrentPrivs.Within g.privs.2) :
    (uids.foldl (reference catalog table grantorID id changes) g
      ).summarizedCurrentPrivs = g.summarizedCurrentPrivs := by
  induction uids generalizing g with
  | nil => rfl
  | cons uid uids ih =>
    have hsame : (g.reference catalog table grantorID id changes uid).summarizedCurrentPrivs =
        g.summarizedCurrentPrivs := by
      refine ext_has fun o b => ?_
      rw [reference, has_intersectionOfPrivs, has_summarizeCurrent]
      exact ⟨And.left, fun hb => ⟨hb, .inl (h o b hb)⟩⟩
    rw [foldl_cons, ih, hsame]
    intro o b hb
    rw [hsame] at hb
    exact has_summarizeCurrent _ |>.2 (.inl (h o b hb))

lemma gatherViewPrivileges_first {rest : List ObjectUID}
    (hrefs : catalog.objectsThatViewReferences view.viewUID = first :: rest) :
    (gatherViewPrivileges catalog table grantorID view changes).2 =
      (setAllGrantPrivileges .view true).intersectionOfPrivs (heldAfter catalog table
        (ObjectUsage.grantorsKey grantorID) changes first view.viewOwner) := by
  rw [gatherViewPrivileges, hrefs]
  dsimp only [foldl_cons]
  rw [foldl_current]
  · refine ext_has fun o b => ?_
    rw [reference, has_intersectionOfPrivs, has_intersectionOfPrivs, has_summarizeCurrent]
    simp
  · intro o b hb
    exact (has_intersectionOfPrivs.1 hb).2

/-- A table privilege is held on the first object of the view, with the changes looked for in the
rows of the command's grantor, exactly if it is held on every object of the view once the changes
are made. -/
def FirstDecides (catalog : Catalog) (table : ObjectPrivsTable) (grantorID : AuthID)
    (changes : List ObjectUsage) (view : ViewUsage) : Prop :=
  ∀ first ∈ (catalog.objectsThatViewReferences view.viewUID).head?, ∀ grantable b,
    (setAllGrantPrivileges .view true).Has grantable b →
      ((heldAfter catalog table (ObjectUsage.grantorsKey grantorID) changes first
          view.viewOwner).Has grantable b ↔
        ∀ uid ∈ catalog.objectsThatViewReferences view.viewUID,
          (heldAfter catalog table (ObjectUsage.rowKey grantorID) changes uid
            view.viewOwner).Has grantable b)

lemma gatherViewPrivileges_eq_viewPrivs_iff : (gatherViewPrivileges catalog table grantorID view
      changes).2 = viewPrivs catalog table grantorID changes view ↔
    FirstDecides catalog table grantorID changes view := by
  unfold FirstDecides
  cases hrefs : catalog.objectsThatViewReferences view.viewUID with
  | nil => simp [gatherViewPrivileges, viewPrivs, hrefs]
  | cons first rest =>
    rw [gatherViewPrivileges_first hrefs, head?_cons]
    constructor
    · rintro heq _ ⟨⟩ o b hall
      have hbit : (viewPrivs catalog table grantorID changes view).Has o b ↔ _ := has_viewPrivs
      rw [← heq, has_intersectionOfPrivs, hrefs] at hbit
      simpa [hall] using hbit
    · intro hdec
      refine ext_has fun o b => ?_
      rw [has_intersectionOfPrivs, has_viewPrivs, hrefs]
      exact and_congr_right (hdec first rfl o b)

end Bits

/-! ### The change of one row -/

def writeAffected (command : PrivCommand) (grantorID : AuthID) (table : ObjectPrivsTable)
    (listOfObjects : List ObjectUsage) : Except Status ObjectPrivsTable :=
  match command with
  | .grantObject => .ok (updateGrantedRows grantorID table listOfObjects)
  | .revokeObjectRestrict => updateRevokedRows grantorID table listOfObjects

variable {listOfObjects : List ObjectUsage} {key : RowKey}

variable {views : List ObjectUsage} {uid : ObjectUID} {changes later : List ObjectUsage}
  {privs : CoreDesc}

/-- A row after the writes is as before, or holds the privileges of an affected object. -/
theorem writeAffected_lookup (h : writeAffected command grantorID table listOfObjects = .ok table')
    (hkey : table'.lookup key = some privs) : table.lookup key = some privs ∨
      ∃ v ∈ listOfObjects, key = v.rowKey grantorID ∧ privs = v.updatedPrivs := by
  cases command with
  | grantObject =>
    cases h
    induction listOfObjects using reverseRecOn with
    | nil => exact .inl hkey
    | append_singleton l v ih =>
      rw [updateGrantedRows, foldl_append, foldl_cons, foldl_nil, lookup_updateWhere] at hkey
      split at hkey
      · next hwrit =>
        exact .inr ⟨v, by simp, hwrit.1, (Option.some.inj hkey).symm⟩
      · obtain hsame | ⟨w, hw, hprivs⟩ := ih hkey
        · exact .inl hsame
        · exact .inr ⟨w, by simp [hw], hprivs⟩
  | revokeObjectRestrict =>
    refine foldlM_invariant (I := fun t => ∀ privs, t.lookup key = some privs →
      table.lookup key = some privs ∨
        ∃ v ∈ listOfObjects, key = v.rowKey grantorID ∧ privs = v.updatedPrivs)
      ?_ (fun _ => .inl) h privs hkey
    intro t v hv t' ht ht' privs hprivs
    obtain hsame | ⟨hk, -, hwrit⟩ := updateRevokedRow_lookup ht' key
    · exact ht privs (hsame.symm.trans hprivs)
    · rw [hwrit] at hprivs
      split at hprivs <;> cases hprivs
      exact .inr ⟨v, hv, hk, rfl⟩

lemma changedPrivs_of_ne {keyOf : ObjectUsage → RowKey} (privs : CoreDesc)
    (h : ∀ v ∈ changes, key ≠ keyOf v) : changedPrivs keyOf changes ⟨key, privs⟩ = privs := by
  induction changes generalizing privs with
  | nil => rfl
  | cons v changes ih =>
    rw [forall_mem_cons] at h
    rw [changedPrivs, foldl_cons, if_neg h.1]
    exact ih privs h.2

lemma lookup_updateGrantedRows_eq (table : ObjectPrivsTable) (views : List ObjectUsage) :
    (updateGrantedRows grantorID table views).lookup key =
      (table.lookup key).map fun privs =>
        changedPrivs (ObjectUsage.rowKey grantorID) views ⟨key, privs⟩ := by
  induction views generalizing table with
  | nil => exact Option.map_id'.symm
  | cons v views ih =>
    refine (ih (table.updateWhere (v.rowKey grantorID) v.updatedPrivs)).trans ?_
    rw [lookup_updateWhere]
    split_ifs with hkey
    · obtain ⟨rfl, hsome⟩ := hkey
      obtain ⟨privs, hprivs⟩ := Option.isSome_iff_exists.1 hsome
      simp [hprivs, changedPrivs]
    · cases hprivs : table.lookup key with
      | none => rfl
      | some privs =>
        have hne : key ≠ v.rowKey grantorID := by
          rintro rfl
          exact hkey ⟨rfl, by simp [hprivs]⟩
        simp [changedPrivs, hne]

/-- A view keeps its select privilege in a revoke, so that its row is not deleted. -/
theorem updateRevokedRows_views (hviews : ∀ v ∈ views, v.objectType = .view)
    (h : updateRevokedRows grantorID table views = .ok table') :
    table' = updateGrantedRows grantorID table views := by
  induction views generalizing table with
  | nil =>
    cases h
    rfl
  | cons v views ih =>
    rw [forall_mem_cons] at hviews
    rw [updateRevokedRows, foldlM_cons, bind_eq_ok] at h
    obtain ⟨table₁, hfst, hrest⟩ := h
    have hselect : .select ∈ v.updatedPrivs.priv := by
      by_contra hnot
      rw [updateRevokedRow, if_pos ⟨hviews.1, hnot⟩] at hfst
      cases hfst
    have hnull : ¬ v.updatedPrivs.isNull := fun hnull => by
      rw [hnull.1] at hselect
      exact Finset.notMem_empty _ hselect
    rw [updateRevokedRow, if_neg fun hview => hview.2 hselect, if_neg hnull] at hfst
    cases hfst
    exact ih hviews.2 hrest

lemma has_updateGrantedRows {grantable : Bool} {b : PrivType} (views : List ObjectUsage) :
    (∃ privs, (updateGrantedRows grantorID table views).lookup key = some privs ∧
        privs.Has grantable b) ↔ ∃ privs, table.lookup key = some privs ∧
      (changedPrivs (ObjectUsage.rowKey grantorID) views ⟨key, privs⟩).Has grantable b := by
  simp [lookup_updateGrantedRows_eq]

lemma has_written {grantable : Bool} {b : PrivType}
    (hviews : ∀ v ∈ views, v.objectType = .view ∧ v.objectUID ≠ usage.objectUID)
    (h : writeAffected command grantorID table (usage :: views) = .ok table') :
    (∃ privs, table'.lookup key = some privs ∧ privs.Has grantable b) ↔
      ∃ privs, table.lookup key = some privs ∧
        (changedPrivs (ObjectUsage.rowKey grantorID) (usage :: views) ⟨key, privs⟩).Has
          grantable b := by
  cases command with
  | grantObject =>
    cases h
    exact has_updateGrantedRows _
  | revokeObjectRestrict =>
    rw [writeAffected, updateRevokedRows, foldlM_cons, bind_eq_ok] at h
    obtain ⟨table₁, hfst, hrest⟩ := h
    obtain rfl := updateRevokedRows_views (fun v hv => (hviews v hv).1) hrest
    unfold updateRevokedRow at hfst
    split at hfst
    · cases hfst
    split at hfst <;> cases hfst
    · next hnull =>
      rw [has_updateGrantedRows, FiniteMaps.lookup_erase_eq]
      by_cases hkey : key = usage.rowKey grantorID
      · -- the deleted row would have had no privileges
        have hkept : changedPrivs (ObjectUsage.rowKey grantorID) views ⟨key, usage.updatedPrivs⟩ =
            usage.updatedPrivs := by
          refine changedPrivs_of_ne _ fun v hv he => (hviews v hv).2 ?_
          exact congrArg RowKey.objectUID (he.symm.trans hkey)
        have hchanged : ∀ privs, changedPrivs (ObjectUsage.rowKey grantorID) (usage :: views)
            ⟨key, privs⟩ = usage.updatedPrivs := fun privs => by
          rw [changedPrivs, foldl_cons, if_pos hkey]
          exact hkept
        simp only [if_pos hkey, hchanged, hnull.not_has, and_false, reduceCtorEq, false_and,
          exists_false]
      · simp [changedPrivs, hkey]
    · exact has_updateGrantedRows (usage :: views)

/-- After the writes the owner holds on every object what the changes make of the rows. -/
theorem heldPrivs_written {id : AuthID}
    (hviews : ∀ v ∈ views, v.objectType = .view ∧ v.objectUID ≠ usage.objectUID)
    (h : writeAffected command grantorID table (usage :: views) = .ok table') :
    heldPrivs catalog table' uid id =
      heldAfter catalog table (ObjectUsage.rowKey grantorID) (usage :: views) uid id := by
  refine ext_has fun o b => ?_
  rw [has_heldPrivs, has_heldAfter]
  constructor
  · rintro ⟨k, privs, hk, hin, hgrantee, hb⟩
    obtain ⟨old, hold, hb⟩ := (has_written hviews h).1 ⟨privs, hk, hb⟩
    exact ⟨k, old, hold, hin, hgrantee, hb⟩
  · rintro ⟨k, privs, hk, hin, hgrantee, hb⟩
    obtain ⟨new, hnew, hb⟩ := (has_written hviews h).2 ⟨privs, hk, hb⟩
    exact ⟨k, new, hnew, hin, hgrantee, hb⟩

/-! ### The views that a change reaches -/

/-- Views with the privileges gathered for them, each from the changes before it. -/
def Gathered (catalog : Catalog) (table : ObjectPrivsTable) (grantorID : AuthID) :
    List ObjectUsage → List ObjectUsage → Prop
  | _, [] => True
  | affected, v :: views =>
    (∃ view : ViewUsage, v = view.usage (gatherViewPrivileges catalog table grantorID view affected)) ∧
      Gathered catalog table grantorID (affected ++ [v]) views

lemma Gathered.append {affected more : List ObjectUsage}
    (h : Gathered catalog table grantorID affected views)
    (hmore : Gathered catalog table grantorID (affected ++ views) more) :
    Gathered catalog table grantorID affected (views ++ more) := by
  induction views generalizing affected with
  | nil => rwa [append_nil] at hmore
  | cons v views ih =>
    refine ⟨h.1, ih h.2 ?_⟩
    rwa [append_assoc, singleton_append]

lemma Gathered.of_mem {affected : List ObjectUsage} {v : ObjectUsage}
    (h : Gathered catalog table grantorID affected views) (hv : v ∈ views) :
    ∃ (view : ViewUsage) (before after : List ObjectUsage), views = before ++ v :: after ∧
      v = view.usage (gatherViewPrivileges catalog table grantorID view (affected ++ before)) := by
  induction views generalizing affected with
  | nil => cases hv
  | cons w views ih =>
    obtain rfl | hv := mem_cons.1 hv
    · obtain ⟨view, hview⟩ := h.1
      exact ⟨view, [], views, rfl, by rwa [append_nil]⟩
    · obtain ⟨view, before, after, rfl, hview⟩ := ih h.2 hv
      exact ⟨view, w :: before, after, rfl, by rwa [append_assoc, singleton_append] at hview⟩

lemma dealWithViews_gathered {n : ℕ} {affected affected' : List ObjectUsage}
    (h : dealWithViews catalog table grantorID command n usage affected = .ok affected') :
    ∃ views, affected' = affected ++ views ∧
      Gathered catalog table grantorID affected views := by
  induction n generalizing usage affected affected' with
  | zero =>
    cases h
    exact ⟨[], (append_nil _).symm, trivial⟩
  | succ n ih =>
    refine foldlM_invariant (I := fun l => ∃ views, l = affected ++ views ∧
      Gathered catalog table grantorID affected views) ?_ ⟨[], (append_nil _).symm, trivial⟩ h
    rintro _ view - l' ⟨views, rfl, hviews⟩ hl'
    dsimp only at hl'
    split at hl'
    · cases hl'
    split at hl'
    · cases hl'
      exact ⟨views, rfl, hviews⟩
    · obtain ⟨above, rfl, habv⟩ := ih hl'
      refine ⟨views ++ ([view.usage _] ++ above), by rw [append_assoc, append_assoc],
        hviews.append ⟨⟨view, rfl⟩, habv⟩⟩

variable {command : Command}

/-- A successful command changes an existing row and writes the affected objects, or leaves
the rows of other objects alone. -/
theorem Command.execute_ok (h : command.execute catalog object table = .ok table') :
    (∃ usage listOfObjects kind, usage.objectUID = object.objectUID ∧
      getAffectedObjects catalog table command.grantorID usage kind = .ok listOfObjects ∧
      writeAffected kind command.grantorID table listOfObjects = .ok table') ∨
    ∀ key : RowKey, key.objectUID ≠ object.objectUID → table'.lookup key = table.lookup key := by
  cases command with
  | grant request wgo =>
    rw [execute, grantObjectPriv] at h
    split at h
    · cases h
    split at h
    · cases h
      exact .inr fun _ _ => rfl
    obtain ⟨privs, -, h⟩ := bind_eq_ok.1 h
    unfold grantPrivsToGrantee at h
    split at h
    · cases h
      refine .inr fun key hkey => AList.lookup_insert_ne ?_
      rintro rfl
      exact hkey rfl
    · split at h
      · cases h
        exact .inr fun _ _ => rfl
      obtain ⟨listOfObjects, hlist, hok⟩ := bind_eq_ok.1 h
      exact .inl ⟨_, listOfObjects, .grantObject, rfl, hlist, hok⟩
  | revoke request gof =>
    rw [execute, revokeObjectPriv] at h
    split at h
    · cases h
    obtain ⟨privs, -, h⟩ := bind_eq_ok.1 h
    unfold revokePrivsFromGrantee at h
    split at h
    · cases h
      exact .inr fun _ _ => rfl
    · obtain ⟨listOfObjects, hlist, hok⟩ := bind_eq_ok.1 h
      exact .inl ⟨_, listOfObjects, .revokeObjectRestrict, rfl, hlist, hok⟩

lemma Command.execute_eq_step (h : (command.execute catalog object table).isOk = true) :
    command.execute catalog object table = .ok (command.step catalog object table) := by
  unfold step
  cases hexecute : command.execute catalog object table with
  | ok table' => rfl
  | error status => rw [hexecute] at h; cases h

def twoTables : Catalog where
  fetchRolesForUser _ := []
  viewsThatReferenceObject uid := if uid = 7 ∨ uid = 8 then [⟨9, 33335⟩] else []
  objectsThatViewReferences uid := if uid = 9 then [7, 8] else []
  referencingTablesForConstraints _ := []
  objectPrivileges := 1
  levels uid := if uid = 7 ∨ uid = 8 then 1 else 0
  levels_lt uid view h := by
    split_ifs at h with huid
    · rw [mem_singleton.1 h, if_pos huid]
      decide
    · exact absurd h not_mem_nil
  references uid view h uid' h' := by
    split_ifs at h
    · rw [mem_singleton.1 h] at h' ⊢
      rw [if_pos (by simpa using h')]
      exact mem_singleton_self _
    · exact absurd h not_mem_nil

def firstTable : Object := ⟨7, .baseTable⟩

/-- The owner 33333 of both tables has granted select on them to the view's owner, and on
the second one `more` besides. -/
def viewOwnersRows (more : Finset PrivType) : ObjectPrivsTable :=
  AList.insert ⟨7, systemAuthID, 33333⟩ (setAllGrantPrivileges .baseTable true)
    (AList.insert ⟨7, 33333, 33335⟩ ⟨{.select}, ∅⟩
      (AList.insert ⟨8, 33333, 33335⟩ ⟨{.select} ∪ more, ∅⟩
        (AList.insert ⟨9, systemAuthID, 33335⟩ ⟨{.select}, ∅⟩ ∅)))

def grantInsert : Command := .grant ⟨33333, 33335, false, [.insert]⟩ false

/-- Insert on the first table, granted to the owner of the view. -/
def insertGranted : ObjectUsage :=
  ⟨7, 33335, .baseTable, ⟨{.select}, ∅⟩, ⟨{.select, .insert}, ∅⟩⟩

end Trafodion.PrivMgr
