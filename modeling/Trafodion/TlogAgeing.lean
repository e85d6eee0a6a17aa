import Trafodion.TlogClient

/-!
# Ageing keeps the decisions that are still needed

A control point first rewrites every live committed transaction. The rewritten record gets
a sequence number at least as large as the bound of any earlier control point, so ageing
does not select its row, as long as the rewrite reaches the log table at all.
-/
namespace Trafodion.Tlog

open List Function AList FiniteMaps TmAuditTlog DelimitedText VersionedCells Runs

namespace TmAuditTlog

variable {cfg : Settings} {env : Environment} {tl : TmAuditTlog}

def Timely (env : Environment) (tl : TmAuditTlog) : Prop :=
  ∀ row, (tl.store row).Bounded (env.clock tl.applied)

def Indexed (tl : TmAuditTlog) : Prop := ∀ i, ∀ p ∈ tl.buffers i, p.1.1 = i

/-- The control points are numbered up to the current one, and their sequence numbers do
not exceed its own, nor the next one to be given out. -/
def ControlPointsSound (tl : TmAuditTlog) : Prop :=
  ∃ asn, tl.controlPoints.lookup tl.currControlPt = some asn ∧ asn ≤ tl.asn ∧
    ∀ k asn', tl.controlPoints.lookup k = some asn' → k ≤ tl.currControlPt ∧ asn' ≤ asn

structure Sound (env : Environment) (tl : TmAuditTlog) : Prop where
  timely : Timely env tl
  indexed : Indexed tl
  controlPoints : ControlPointsSound tl

def Sent (row : ℕ × BitVec 64) (tl : TmAuditTlog) : Prop :=
  ∀ i, ∀ p ∈ tl.buffers i, p.1 ≠ row

/-- The newest record of the row is a commit with a number from `lo` on, and nothing waits
to be put over it. -/
structure Kept (cfg : Settings) (lo : ℕ) (transid : TransId) (tl : TmAuditTlog) : Prop where
  newest : ∃ asn tables, lo ≤ asn ∧ (tl.store (cfg.numLogs.row transid)).newest =
    some (record asn transid .committed tables)
  sent : Sent (cfg.numLogs.row transid) tl

/-- Numbers were given out and the control points stayed as they are. -/
structure Advances (tl tl' : TmAuditTlog) : Prop where
  asn : tl.asn ≤ tl'.asn
  currControlPt : tl'.currControlPt = tl.currControlPt
  controlPoints : tl'.controlPoints = tl.controlPoints

lemma Advances.refl : Advances tl tl := ⟨le_rfl, rfl, rfl⟩

lemma Advances.trans {tl' tl'' : TmAuditTlog} (h : Advances tl tl') (h' : Advances tl' tl'') :
    Advances tl tl'' :=
  ⟨h.asn.trans h'.asn, h'.currControlPt.trans h.currControlPt,
    h'.controlPoints.trans h.controlPoints⟩

lemma ControlPointsSound.advances {tl' : TmAuditTlog} (h : ControlPointsSound tl)
    (hadv : Advances tl tl') : ControlPointsSound tl' := by
  obtain ⟨asn, hlook, hle, hall⟩ := h
  refine ⟨asn, ?_, hle.trans hadv.asn, ?_⟩
  · rw [hadv.controlPoints, hadv.currControlPt, hlook]
  · rw [hadv.controlPoints, hadv.currControlPt]
    exact hall

lemma advances_flushCommits (i : ℕ) : Advances tl (flushCommits env i tl) :=
  have hfold : Advances tl ((tl.buffers i).foldl (applyPut env) tl) :=
    foldlRecOn _ _ .refl fun _ h _ _ => { h with }
  { hfold with }

lemma timely_applyPut (h : Timely env tl) (p : (ℕ × BitVec 64) × Text) :
    Timely env (applyPut env tl p) := by
  have hle : env.clock tl.applied ≤ env.clock (tl.applied + 1) :=
    env.monotone_clock (Nat.le_succ _)
  intro row
  change ((tl.store.put p.1 _ _) row).Bounded (env.clock (tl.applied + 1))
  by_cases hrow : row = p.1
  · subst hrow
    rw [Store.put_same]
    exact ((h p.1).put le_rfl p.2).mono hle
  · rw [Store.put_of_ne _ hrow]
    exact (h row).mono hle

lemma timely_foldl_applyPut (h : Timely env tl) (l : List ((ℕ × BitVec 64) × Text)) :
    Timely env (l.foldl (applyPut env) tl) :=
  foldlRecOn l _ h fun _ h p _ => timely_applyPut h p

lemma foldl_applyPut_row {row : ℕ × BitVec 64} {l : List ((ℕ × BitVec 64) × Text)}
    (h : ∀ p ∈ l, p.1 ≠ row) : (l.foldl (applyPut env) tl).store row = tl.store row := by
  induction l generalizing tl with
  | nil => rfl
  | cons p l ih =>
    rw [foldl_cons, ih (forall_mem_cons.1 h).2]
    exact Store.put_of_ne _ (h p mem_cons_self).symm _ _

lemma newest_foldl_applyPut_snoc (h : Timely env tl) (l : List ((ℕ × BitVec 64) × Text))
    (row : ℕ × BitVec 64) (value : Text) :
    (((l ++ [(row, value)]).foldl (applyPut env) tl).store row).newest = some value := by
  rw [foldl_append, foldl_cons, foldl_nil]
  change ((Store.put _ row _ value) row).newest = some value
  rw [Store.put_same, Column.newest_put_of_bounded (timely_foldl_applyPut h l row)]

lemma mem_buffers_flushCommits {i j : ℕ} {p : (ℕ × BitVec 64) × Text}
    (hp : p ∈ (flushCommits env i tl).buffers j) : j ≠ i ∧ p ∈ tl.buffers j := by
  change p ∈ update tl.buffers i [] j at hp
  by_cases hj : j = i
  · subst hj
    simp at hp
  · rw [update_of_ne hj] at hp
    exact ⟨hj, hp⟩

lemma sound_flushCommits (h : Sound env tl) (i : ℕ) : Sound env (flushCommits env i tl) := by
  refine ⟨timely_foldl_applyPut h.timely (tl.buffers i), ?_, ?_⟩
  · intro j p hp
    exact h.indexed j p (mem_buffers_flushCommits hp).2
  · exact h.controlPoints.advances (advances_flushCommits i)

lemma sent_flushCommits {row : ℕ × BitVec 64} (h : Sent row tl) (i : ℕ) :
    Sent row (flushCommits env i tl) :=
  fun j p hp => h j p (mem_buffers_flushCommits hp).2

variable {transid : TransId} {lo : ℕ}

lemma Kept.flushCommits (h : Kept cfg lo transid tl) (i : ℕ) :
    Kept cfg lo transid (flushCommits env i tl) := by
  refine ⟨?_, sent_flushCommits h.sent i⟩
  have hrow : (TmAuditTlog.flushCommits env i tl).store (cfg.numLogs.row transid) =
      tl.store (cfg.numLogs.row transid) := foldl_applyPut_row (h.sent i)
  rw [hrow]
  exact h.newest

lemma kept_flushCommits {lo asn : ℕ} {tables : List TableName}
    {l : List ((ℕ × BitVec 64) × Text)} (ht : Timely env tl) (hi : Indexed tl)
    (hbuffer : tl.buffers (cfg.numLogs.lockIndex transid) =
      l ++ [(cfg.numLogs.row transid, record asn transid .committed tables)]) (hlo : lo ≤ asn) :
    Kept cfg lo transid (flushCommits env (cfg.numLogs.lockIndex transid) tl) := by
  refine ⟨⟨asn, tables, hlo, ?_⟩, ?_⟩
  · change (((tl.buffers _).foldl (applyPut env) tl).store _).newest = _
    rw [hbuffer]
    exact newest_foldl_applyPut_snoc ht l _ _
  · intro j p hp hrow
    obtain ⟨hj, hmem⟩ := mem_buffers_flushCommits hp
    have hindex := hi j p hmem
    rw [hrow] at hindex
    exact hj hindex.symm

/-- The buffering step of `table[i].put(p)`. -/
def enqueue (i : ℕ) (p : (ℕ × BitVec 64) × Text) (tl : TmAuditTlog) : TmAuditTlog :=
  { tl with
    asn := tl.asn + 1
    buffers := update tl.buffers i (tl.buffers i ++ [p]) }

lemma advances_enqueue (i : ℕ) (p : (ℕ × BitVec 64) × Text) : Advances tl (enqueue i p tl) :=
  ⟨Nat.le_succ _, rfl, rfl⟩

lemma mem_buffers_enqueue {i j : ℕ} {p q : (ℕ × BitVec 64) × Text}
    (hq : q ∈ (enqueue i p tl).buffers j) : (j = i ∧ q = p) ∨ q ∈ tl.buffers j := by
  change q ∈ update tl.buffers i (tl.buffers i ++ [p]) j at hq
  by_cases hj : j = i
  · subst hj
    rw [update_self] at hq
    rcases mem_append.1 hq with hq | hq
    · exact Or.inr hq
    · exact Or.inl ⟨rfl, mem_singleton.1 hq⟩
  · rw [update_of_ne hj] at hq
    exact Or.inr hq

lemma sound_enqueue (h : Sound env tl) {i : ℕ} {p : (ℕ × BitVec 64) × Text}
    (hp : p.1.1 = i) : Sound env (enqueue i p tl) := by
  refine ⟨h.timely, ?_, ?_⟩
  · intro j q hq
    rcases mem_buffers_enqueue hq with ⟨rfl, rfl⟩ | hq
    · exact hp
    · exact h.indexed j q hq
  · exact h.controlPoints.advances (advances_enqueue i p)

lemma Kept.enqueue {lo i : ℕ} {p : (ℕ × BitVec 64) × Text}
    (h : Kept cfg lo transid tl) (hp : p.1 ≠ cfg.numLogs.row transid) :
    Kept cfg lo transid (enqueue i p tl) := by
  refine ⟨h.newest, fun j q hq => ?_⟩
  rcases mem_buffers_enqueue hq with ⟨-, rfl⟩ | hq
  · exact hp
  · exact h.sent j q hq

lemma putSingleRecord_eq (transid : TransId) (state : TxState) (rgs : List Region) (frc : Bool) :
    ∃ n, (cfg.useAutoFlush ∨ frc → 0 < n) ∧ putSingleRecord cfg env transid state rgs frc tl =
        (flushCommits env (cfg.numLogs.lockIndex transid))^[n]
          (enqueue (cfg.numLogs.lockIndex transid) (cfg.numLogs.row transid,
            record tl.asn transid state (rgs.map Region.table)) tl) := by
  unfold putSingleRecord tablePut
  cases hauto : cfg.useAutoFlush <;> cases frc <;> cases hfull : env.bufferFull tl.asn
  · exact ⟨0, by simp, rfl⟩
  · exact ⟨1, by simp, rfl⟩
  · exact ⟨1, by simp, rfl⟩
  · exact ⟨2, by simp, rfl⟩
  · exact ⟨1, by simp, rfl⟩
  · exact ⟨1, by simp, rfl⟩
  · exact ⟨1, by simp, rfl⟩
  · exact ⟨1, by simp, rfl⟩

lemma sound_putSingleRecord (h : Sound env tl) (transid : TransId) (state : TxState)
    (rgs : List Region) (frc : Bool) :
    Sound env (putSingleRecord cfg env transid state rgs frc tl) := by
  obtain ⟨n, -, heq⟩ := @putSingleRecord_eq cfg env tl transid state rgs frc
  have hs := @sound_enqueue env tl h (cfg.numLogs.lockIndex transid)
    (cfg.numLogs.row transid, record tl.asn transid state (rgs.map Region.table)) rfl
  rw [heq]
  exact Function.Iterate.rec (Sound env) hs
    (fun _ h' => sound_flushCommits h' (cfg.numLogs.lockIndex transid)) n

lemma Kept.putSingleRecord {transid transid' : TransId}
    (h : Kept cfg lo transid tl) (hne : transid' ≠ transid) (state : TxState)
    (rgs : List Region) (frc : Bool) :
    Kept cfg lo transid (putSingleRecord cfg env transid' state rgs frc tl) := by
  obtain ⟨n, -, heq⟩ := @putSingleRecord_eq cfg env tl transid' state rgs frc
  rw [heq]
  exact Function.Iterate.rec (Kept cfg lo transid)
    (h.enqueue fun hrow => hne (cfg.numLogs.row_injective hrow))
    (fun _ h' => h'.flushCommits _) n

lemma kept_putSingleRecord (h : Sound env tl) (hlo : lo ≤ tl.asn)
    (transid : TransId) (rgs : List Region) {frc : Bool} (hsend : cfg.useAutoFlush ∨ frc) :
    Kept cfg lo transid (putSingleRecord cfg env transid .committed rgs frc tl) := by
  obtain ⟨n, hpos, heq⟩ := @putSingleRecord_eq cfg env tl transid .committed rgs frc
  obtain ⟨m, rfl⟩ := Nat.exists_eq_add_of_le' (hpos hsend)
  have hs := @sound_enqueue env tl h (cfg.numLogs.lockIndex transid)
    (cfg.numLogs.row transid, record tl.asn transid .committed (rgs.map Region.table)) rfl
  rw [heq, iterate_add_apply]
  exact Function.Iterate.rec (Kept cfg lo transid)
    (kept_flushCommits hs.timely hs.indexed (update_self _ _ _) hlo)
    (fun _ h' => h'.flushCommits _) m

lemma advances_putSingleRecord (transid : TransId) (state : TxState)
    (rgs : List Region) (frc : Bool) :
    Advances tl (putSingleRecord cfg env transid state rgs frc tl) := by
  obtain ⟨n, -, heq⟩ := @putSingleRecord_eq cfg env tl transid state rgs frc
  rw [heq]
  exact Function.Iterate.rec (Advances tl) (advances_enqueue _ _)
    (fun _ h => h.trans (advances_flushCommits _)) n

/-- An entry of the table of transactions. -/
abbrev Entry := Sigma fun _ : TransId => TransactionState

lemma sound_rewriteEntry (h : Sound env tl) (e : Entry) :
    Sound env (rewriteEntry cfg env tl e) := by
  unfold rewriteEntry
  split_ifs
  · exact sound_putSingleRecord h _ _ _ _
  · exact h

lemma advances_rewriteEntry (e : Entry) : Advances tl (rewriteEntry cfg env tl e) := by
  unfold rewriteEntry
  split_ifs
  · exact advances_putSingleRecord _ _ _ _
  · exact .refl

lemma Kept.rewriteEntry (h : Kept cfg lo transid tl)
    {e : Entry} (hne : e.1 ≠ transid) :
    Kept cfg lo transid (rewriteEntry cfg env tl e) := by
  unfold TmAuditTlog.rewriteEntry
  split_ifs
  · exact h.putSingleRecord hne _ _ _
  · exact h

lemma sound_foldl_rewriteEntry (h : Sound env tl)
    (es : List Entry) :
    Sound env (es.foldl (rewriteEntry cfg env) tl) :=
  foldlRecOn es _ h fun _ h e _ => sound_rewriteEntry h e

lemma advances_foldl_rewriteEntry (es : List Entry) :
    Advances tl (es.foldl (rewriteEntry cfg env) tl) :=
  foldlRecOn es _ .refl fun _ h e _ => h.trans (advances_rewriteEntry e)

lemma Kept.foldl_rewriteEntry (h : Kept cfg lo transid tl)
    {es : List Entry} (hes : ∀ e ∈ es, e.1 ≠ transid) :
    Kept cfg lo transid (es.foldl (TmAuditTlog.rewriteEntry cfg env) tl) :=
  foldlRecOn es _ h fun _ h e he => h.rewriteEntry (hes e he)

/-- Every committed entry is rewritten, and the entries after it are for other
transactions. -/
theorem kept_foldl_rewriteEntry (hsend : cfg.useAutoFlush ∨ cfg.forceControlPoint)
    (h : Sound env tl) (hlo : lo ≤ tl.asn)
    {es : List Entry} (hes : es.NodupKeys)
    {e : Entry} (he : e ∈ es)
    (hcomm : e.2.status = .committed) : Kept cfg lo e.1 (es.foldl (rewriteEntry cfg env) tl) := by
  induction es generalizing tl with
  | nil => simp at he
  | cons e' es ih =>
    obtain ⟨hkey, hes'⟩ := nodupKeys_cons.1 hes
    rcases mem_cons.1 he with rfl | he
    · have hkept : Kept cfg lo e.1 (rewriteEntry cfg env tl e) := by
        unfold rewriteEntry
        rw [if_pos hcomm]
        exact kept_putSingleRecord h hlo _ _ hsend
      refine hkept.foldl_rewriteEntry fun e' he' heq => hkey ?_
      rw [← heq]
      exact mem_keys_of_mem he'
    · exact ih (sound_rewriteEntry h e') (hlo.trans (advances_rewriteEntry e').asn) hes' he

lemma ControlPointsSound.doControlPoint {asn : ℕ} (hle : asn ≤ tl.asn) (hall : ∀ k asn',
      tl.controlPoints.lookup k = some asn' → k ≤ tl.currControlPt ∧ asn' ≤ asn) :
    ControlPointsSound (doControlPoint asn tl) := by
  refine ⟨asn, lookup_insert _, hle, fun k asn' hk => ?_⟩
  replace hk := (lookup_insert_eq tl.controlPoints (tl.currControlPt + 1) k asn).symm.trans hk
  split_ifs at hk with hcurr
  · cases hk
    exact ⟨hcurr.le, le_rfl⟩
  · exact (hall k asn' hk).imp_left (·.trans (Nat.le_succ _))

lemma sound_doControlPoint (h : Sound env tl) :
    Sound env (doControlPoint tl.asn { tl with asn := tl.asn + 1 }) := by
  obtain ⟨asn, -, hle, hall⟩ := h.controlPoints
  exact ⟨h.timely, h.indexed, .doControlPoint (Nat.le_succ _) fun k asn' hk =>
    (hall k asn' hk).imp_right (·.trans hle)⟩

lemma header_record (asn : ℕ) (transid : TransId) {state : TxState}
    (tables : List TableName) (h : state ≠ .unknown) :
    header (record asn transid state tables) = some ((asn : ℤ), state) := by
  simp [header, tokens_record asn transid state tables h, parseLong_valueOf, TxState.ofName_name]

lemma not_selects_of_newest {lvAsn asn : ℕ} (hle : lvAsn ≤ asn) {column : Column Text}
    {tables : List TableName} (hnew : column.newest = some (record asn transid .committed tables)) :
    selects cfg lvAsn column = false := by
  have hlt : ¬ (asn : ℤ) < (lvAsn : ℤ) := by omega
  simp [selects, hnew, header_record asn transid tables, hlt]

lemma sound_writeControlPoint (h : Sound env tl)
    (map : AList fun _ : TransId => TransactionState) :
    Sound env (writeControlPoint cfg env map tl) :=
  sound_doControlPoint (sound_foldl_rewriteEntry h map.entries)

lemma writeControlPoint_frame (map : AList fun _ : TransId => TransactionState) :
    (writeControlPoint cfg env map tl).currControlPt = tl.currControlPt + 1 ∧
    ∃ asn, (writeControlPoint cfg env map tl).controlPoints =
      tl.controlPoints.insert (tl.currControlPt + 1) asn := by
  obtain ⟨-, hcurr, htable⟩ := @advances_foldl_rewriteEntry cfg env tl map.entries
  refine ⟨congrArg (· + 1) hcurr, (writeControlPointRecords cfg env map tl).asn, ?_⟩
  rw [← hcurr, ← htable]
  rfl

lemma agedAsn_writeControlPoint_le (h : Sound env tl)
    {map : AList fun _ : TransId => TransactionState} {lvAsn : ℕ}
    (haged : (writeControlPoint cfg env map tl).agedAsn = some lvAsn) : lvAsn ≤ tl.asn := by
  obtain ⟨hcurr, asn, htable⟩ := @writeControlPoint_frame cfg env tl map
  unfold agedAsn at haged
  rw [hcurr, htable] at haged
  split_ifs at haged with hfive
  have hlook := (Option.filter_eq_some_iff.1 haged).1
  rw [lookup_insert_ne (by omega)] at hlook
  obtain ⟨last, -, hle, hall⟩ := h.controlPoints
  exact (hall _ _ hlook).2.trans hle

lemma sound_deleteAgedEntries (h : Sound env tl) (lvAsn : ℕ) :
    Sound env (deleteAgedEntries cfg lvAsn tl) := by
  refine ⟨fun row => ?_, h.indexed, h.controlPoints⟩
  change (if selects cfg lvAsn (tl.store row) then Column.empty else tl.store row).Bounded _
  split_ifs
  · exact Column.bounded_empty _
  · exact h.timely row

lemma sound_deleteAgedRecords (h : Sound env tl) :
    Sound env (deleteAgedRecords (tl.currControlPt - 5) tl) := by
  obtain ⟨asn, hlook, hle, hall⟩ := h.controlPoints
  refine ⟨h.timely, h.indexed, asn, ?_, hle, ?_⟩
  · change AList.lookup tl.currControlPt (FiniteMaps.eraseAll _ _) = _
    rw [FiniteMaps.lookup_eraseAll, if_neg, hlook]
    simp
  · intro k asn' hk
    change AList.lookup k (FiniteMaps.eraseAll _ _) = _ at hk
    rw [FiniteMaps.lookup_eraseAll] at hk
    split_ifs at hk
    exact hall k asn' hk

lemma sound_addControlPoint (h : Sound env tl) (map : AList fun _ : TransId => TransactionState) :
    Sound env (addControlPoint cfg env map tl) := by
  have hw := @sound_writeControlPoint cfg env tl h map
  unfold addControlPoint
  dsimp only
  split_ifs
  · split
    · exact sound_deleteAgedRecords (sound_deleteAgedEntries hw _)
    · exact sound_deleteAgedRecords hw
  · exact hw

/-- What `addControlPoint` promises for a committed transaction of the map: its row is not
selected for deletion, and keeps a newest record that says so. -/
theorem addControlPoint_keeps (hsend : cfg.useAutoFlush ∨ cfg.forceControlPoint)
    (h : Sound env tl) {map : AList fun _ : TransId => TransactionState}
    {ts : TransactionState} (hts : map.lookup transid = some ts) (hcomm : ts.status = .committed) :
    (∀ lvAsn, (writeControlPoint cfg env map tl).agedAsn = some lvAsn →
      selects cfg lvAsn ((writeControlPoint cfg env map tl).store
        (cfg.numLogs.row transid)) = false) ∧ ∃ asn tables, ((addControlPoint cfg env map tl).store
      (cfg.numLogs.row transid)).newest = some (record asn transid .committed tables) := by
  have hmem : (⟨transid, ts⟩ : Entry) ∈ map.entries :=
    mem_lookup_iff.1 hts
  obtain ⟨asn, tables, hasn, hnew⟩ :=
    (kept_foldl_rewriteEntry hsend h le_rfl map.nodupKeys hmem hcomm).newest
  change ((writeControlPoint cfg env map tl).store (cfg.numLogs.row transid)).newest = _
    at hnew
  have hselects : ∀ lvAsn, (writeControlPoint cfg env map tl).agedAsn = some lvAsn →
      selects cfg lvAsn ((writeControlPoint cfg env map tl).store
        (cfg.numLogs.row transid)) = false := fun lvAsn haged =>
    not_selects_of_newest ((agedAsn_writeControlPoint_le h haged).trans hasn) hnew
  refine ⟨hselects, asn, tables, ?_⟩
  unfold addControlPoint
  dsimp only
  split_ifs
  · split
    · rename_i lvAsn haged
      change (if selects cfg lvAsn _ then Column.empty else _).newest = _
      rw [hselects lvAsn haged]
      exact hnew
    · exact hnew
  · exact hnew

lemma getCurrControlPt_eq (h : Sound env tl) : tl.getCurrControlPt = tl.currControlPt := by
  obtain ⟨asn, hlook, -, hall⟩ := h.controlPoints
  have hmem : tl.currControlPt ∈ tl.controlPoints.keys := by
    rw [mem_keys_iff]
    exact ⟨asn, hlook⟩
  have hle : ∀ k ∈ tl.controlPoints.keys, k ≤ tl.currControlPt := by
    intro k hk
    obtain ⟨asn', hk⟩ := (mem_keys_iff _ _).1 hk
    exact (hall k asn' hk).1
  have hfold : ∀ (l : List ℕ) (a : ℕ), (∀ k ∈ l, k ≤ tl.currControlPt) →
      a ≤ tl.currControlPt → (a = tl.currControlPt ∨ tl.currControlPt ∈ l) →
      l.foldl max a = tl.currControlPt := by
    intro l
    induction l with
    | nil =>
      intro a _ _ hor
      simpa using hor
    | cons b l ih =>
      intro a hl ha hor
      have hb := hl b mem_cons_self
      refine ih (max a b) (forall_mem_cons.1 hl).2 (by omega) ?_
      rcases hor with rfl | hor
      · left
        omega
      · rcases mem_cons.1 hor with rfl | hor
        · left
          omega
        · exact Or.inr hor
  exact hfold _ 0 hle (Nat.zero_le _) (Or.inr hmem)

lemma sound_created : Sound env created := by
  refine ⟨fun row => Column.bounded_empty _, fun i p hp => ?_, .doControlPoint le_rfl ?_⟩
  · simp [created, doControlPoint] at hp
  · simp

lemma sound_reopened (h : Sound env tl) : Sound env tl.reopened := by
  obtain ⟨asn, hlook, -, hall⟩ := h.controlPoints
  have heq : tl.reopened = doControlPoint asn
      { tl with asn := asn, buffers := fun _ => [], currControlPt := tl.currControlPt } := by
    unfold reopened
    rw [getCurrControlPt_eq h, hlook]
    rfl
  rw [heq]
  refine ⟨h.timely, fun i p hp => ?_, .doControlPoint le_rfl hall⟩
  simp [doControlPoint] at hp

end TmAuditTlog

namespace HBaseTxClient

variable {cfg : Settings} {env : Environment} {c : HBaseTxClient}

section
variable (h : TmAuditTlog.Sound env c.tLog)
include h

lemma sound_putRecord (transid : TransId) (state : TxState) (rgs : List Region) (frc : Bool) :
    TmAuditTlog.Sound env (putRecord cfg env c transid state rgs frc).tLog :=
  sound_putSingleRecord h transid state rgs frc

lemma sound_putForgotten (transid : TransId) :
    TmAuditTlog.Sound env (putForgotten cfg env c transid).tLog := by
  unfold putForgotten
  split_ifs
  · exact sound_putRecord h _ _ _ _
  · exact h

lemma sound_step (call : Call) : TmAuditTlog.Sound env (step cfg env c call).tLog := by
  cases call with
  | beginTransaction transid => exact h
  | registerRegion transid region =>
    unfold step registerRegion
    dsimp only
    split <;> exact h
  | prepareCommit transid readOnly =>
    unfold step prepareCommit
    dsimp only
    split
    · exact h
    · split_ifs <;> exact h
  | doCommit transid throws =>
    unfold step doCommit
    dsimp only
    split
    · exact h
    · rename_i ts _
      have hput := @sound_putRecord cfg env (c.putState (ts.setStatus .committed)) h transid
        .committed ts.participatingRegions true
      split_ifs
      · exact hput
      · exact sound_putForgotten hput transid
  | abortTransaction transid throws =>
    unfold step abortTransaction
    dsimp only
    split
    · exact h
    · rename_i ts _
      have hput := @sound_putRecord cfg env (c.putState (ts.setStatus .aborted)) h transid
        .aborted ts.participatingRegions false
      split_ifs
      · exact hput
      · exact sound_putForgotten hput transid
  | completeRequest transid throws =>
    unfold step completeRequest
    dsimp only
    split
    · exact h
    · split_ifs <;> exact h
  | addControlPoint => exact sound_addControlPoint h _
  | restart => exact sound_reopened h

end

lemma sound_run (calls : List Call) :
    TmAuditTlog.Sound env (run (step cfg env) start calls).tLog :=
  run_invariant (I := fun c : HBaseTxClient => TmAuditTlog.Sound env c.tLog)
    (fun _ call h => sound_step h call) sound_created calls

def newestState (column : Column Text) : Option TxState :=
  (column.newest.bind header).map Prod.snd

/-- A control point taken by the client does not select the row of the transaction for
deletion and leaves a newest record that says `COMMITTED`. -/
def KeepsDecision (cfg : Settings) (env : Environment) (c : HBaseTxClient)
    (transid : TransId) : Prop :=
  let written := writeControlPoint cfg env c.mapTransactionStates c.tLog
  (∀ lvAsn, written.agedAsn = some lvAsn →
    selects cfg lvAsn (written.store (cfg.numLogs.row transid)) = false) ∧
  newestState ((addControlPoint cfg env c).tLog.store (cfg.numLogs.row transid)) =
    some .committed

/-- With auto flush or forced control points, a transaction that is live and committed when
a control point returns keeps its decision in the log. -/
theorem committed_kept_by_addControlPoint (cfg : Settings) (env : Environment)
    (hsend : cfg.useAutoFlush ∨ cfg.forceControlPoint) (calls : List Call)
    (transid : TransId) (ts : TransactionState) (hts : (run (step cfg env) start
      (calls ++ [.addControlPoint])).mapTransactionStates.lookup transid = some ts)
    (hcommitted : ts.status = .committed) :
    KeepsDecision cfg env (run (step cfg env) start calls) transid := by
  rw [run_snoc] at hts
  change (run (step cfg env) start calls).mapTransactionStates.lookup transid = some ts at hts
  obtain ⟨hselects, asn, tables, hnewest⟩ := addControlPoint_keeps hsend
    (@sound_run cfg env calls) hts hcommitted
  refine ⟨hselects, ?_⟩
  change (((TmAuditTlog.addControlPoint cfg env _ _).store _).newest.bind _).map _ = _
  rw [hnewest, Option.bind_some, header_record _ _ _ (by decide)]
  rfl

theorem committed_kept_default :
    KeepsDecision defaultSettings tickingClock (run (step defaultSettings tickingClock) start
        [.beginTransaction 7, .doCommit 7 false]) 7 :=
  committed_kept_by_addControlPoint defaultSettings tickingClock (by decide) _ 7
    ⟨7, .committed, []⟩ (by decide) rfl

/-- Without auto flush and without forced control points the rewrite of transaction 7 stays
in the write buffer, while the commit of transaction 8 has sent its `FORGOTTEN`. -/
theorem rewrite_left_in_buffer :
    (run (step { defaultSettings with useAutoFlush := false } tickingClock) start
      [.beginTransaction 7, .doCommit 7 false, .beginTransaction 8, .doCommit 8 false,
        .addControlPoint]).mapTransactionStates.lookup 7 = some ⟨7, .committed, []⟩ ∧
    ¬ KeepsDecision { defaultSettings with useAutoFlush := false } tickingClock
      (run (step { defaultSettings with useAutoFlush := false } tickingClock) start
        [.beginTransaction 7, .doCommit 7 false, .beginTransaction 8, .doCommit 8 false]) 7 := by
  refine ⟨by decide, fun h => ?_⟩
  have hnewest := h.2
  revert hnewest
  decide

end HBaseTxClient

end Trafodion.Tlog
