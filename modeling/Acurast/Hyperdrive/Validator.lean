import Acurast.Base.Outcome
import Acurast.Base.Run
import Acurast.Base.Tally
import Acurast.Hyperdrive.Actions
import Mathlib.Data.List.Sort

/-! The ink contract to which validators submit the roots of snapshots. A mapping of ink keeps its
entries when a field is set to its default, so earlier submissions and all counts stay. -/

namespace Acurast.Hyperdrive.Validator

open Base

structure Config where
  owner : AccountId32
  minimumEndorsements : BitVec 16
  validators : List AccountId32
  deriving DecidableEq

inductive ConfigureArgument where
  | setOwner (address : AccountId32)
  | setValidators (validators : List AccountId32)
  | setMinimumEndorsements (minimumEndorsements : BitVec 16)
  deriving DecidableEq

inductive Error where
  | snapshotInvalid | notAllowed
  | panicked (text : String)
  deriving DecidableEq

structure Submission where
  account : AccountId32
  current : U128
  snapshot : U128
  root : H256
  deriving DecidableEq

/-- A root that was stored, with the validators, the endorsements that were asked for and the
submissions at that moment. -/
structure StoredRoot where
  snapshot : U128
  root : H256
  validators : List AccountId32
  required : ℕ
  submissions : List Submission
  deriving DecidableEq

/-- `submissions` and `stored` are read by no function. -/
structure State where
  config : Config
  currentSnapshot : U128
  root : StorageMap U128 H256
  snapshotSubmissions : StorageMap AccountId32 H256
  snapshotSubmissionsAccounts : List AccountId32
  /-- The entries of the mapping that is a variable of `validate_block_state_root`. -/
  endorsementsPerRoot : StorageMap H256 U128
  submissions : List Submission
  stored : List StoredRoot

abbrev Result := Except Error

def maxValidators : ℕ := 50

def default : State where
  config := ⟨0, 0, []⟩
  currentSnapshot := 1
  root := ∅
  snapshotSubmissions := ∅
  snapshotSubmissionsAccounts := []
  endorsementsPerRoot := ∅
  submissions := []
  stored := []

def new (admin : AccountId32) (minimumEndorsements : BitVec 16) (validators : List AccountId32) :
    Result State := do
  ensure (validators.length ≤ maxValidators) (.panicked "TOO_MANY_VALIDATORS")
  ensure (0 < minimumEndorsements) (.panicked "NON_ZERO_ENDORSEMENTS")
  let validators := (validators.insertionSort fun a b => a.toNat ≤ b.toNat).eraseReps
  pure { default with config := ⟨admin, minimumEndorsements, validators⟩ }

def failIfNotValidator (s : State) (caller : AccountId32) : Result Unit :=
  ensure (caller ∈ s.config.validators) .notAllowed

def failIfNotOwner (s : State) (caller : AccountId32) : Result Unit :=
  ensure (s.config.owner = caller) .notAllowed

def countEndorsement (s : State) (t : StorageMap H256 U128 × List H256) (account : AccountId32) :
    StorageMap H256 U128 × List H256 :=
  match s.snapshotSubmissions.lookup account with
  | some hash => addVote t hash
  | none => t

/-- The counts go on from those of the last call. -/
def validateBlockStateRoot (s : State) : StorageMap H256 U128 × Option H256 :=
  let (endorsementsPerRoot, candidateRoots) :=
    s.snapshotSubmissionsAccounts.foldl (countEndorsement s) (s.endorsementsPerRoot, [])
  let selected := candidateRoots.foldl (pickLarger fun candidate => endorsementsPerRoot.getD candidate 0)
    ((0 : H256), (0 : U128))
  (endorsementsPerRoot,
    if selected.2 < s.config.minimumEndorsements.setWidth 128 then none else some selected.1)

def applyArgument (c : Config) : ConfigureArgument → Config
  | .setOwner address => { c with owner := address }
  | .setMinimumEndorsements minimumEndorsements => { c with minimumEndorsements }
  | .setValidators validators => { c with validators }

def configure (s : State) (caller : AccountId32) (configure : List ConfigureArgument) : Result State := do
  failIfNotOwner s caller
  pure { s with config := configure.foldl applyArgument s.config }

def recordSubmission (s : State) (caller : AccountId32) (snapshot : U128) (root : H256) : State :=
  { s with
    snapshotSubmissionsAccounts :=
      if caller ∈ s.snapshotSubmissions then s.snapshotSubmissionsAccounts
      else s.snapshotSubmissionsAccounts ++ [caller]
    snapshotSubmissions := s.snapshotSubmissions.insert caller root
    submissions := s.submissions ++ [⟨caller, s.currentSnapshot, snapshot, root⟩] }

def finalizeSnapshot (s : State) (root : H256) : State :=
  { s with
    root := s.root.insert s.currentSnapshot root
    currentSnapshot := s.currentSnapshot + 1
    stored := s.stored ++ [{
      snapshot := s.currentSnapshot
      root := root
      validators := s.config.validators
      required := s.config.minimumEndorsements.toNat
      submissions := s.submissions }] }

def submitRoot (s : State) (caller : AccountId32) (snapshot : U128) (root : H256) : Result State := do
  failIfNotValidator s caller
  ensure (s.currentSnapshot = snapshot) .snapshotInvalid
  let s := recordSubmission s caller snapshot root
  let (endorsementsPerRoot, canFinalizeSnapshot) := validateBlockStateRoot s
  let s := { s with endorsementsPerRoot }
  pure (if canFinalizeSnapshot.isSome then finalizeSnapshot s root else s)

inductive Op where
  | configure (caller : AccountId32) (configure : List ConfigureArgument)
  | submitRoot (caller : AccountId32) (snapshot : U128) (root : H256)
  deriving DecidableEq

def step (s : State) : Op → State
  | .configure caller arguments => transact s (configure s caller arguments)
  | .submitRoot caller snapshot root => transact s (submitRoot s caller snapshot root)

def endorsers (validators : List AccountId32) (submissions : List Submission) (snapshot : U128)
    (root : H256) : List AccountId32 :=
  validators.dedup.filter fun account => (⟨account, snapshot, snapshot, root⟩ : Submission) ∈ submissions

abbrev StoredRoot.Endorsed (e : StoredRoot) : Prop :=
  e.required ≤ (endorsers e.validators e.submissions e.snapshot e.root).length

def recordedRoots (s : State) : List H256 :=
  s.snapshotSubmissionsAccounts.filterMap fun account => s.snapshotSubmissions.lookup account

def counted (s : State) (root : H256) : U128 :=
  s.endorsementsPerRoot.getD root 0 + BitVec.ofNat 128 ((recordedRoots s).count root)

def Reached (s : State) : Prop :=
  ∃ root ∈ recordedRoots s, s.config.minimumEndorsements.setWidth 128 ≤ counted s root

instance (s : State) : Decidable (Reached s) :=
  List.decidableBEx _ _

def recorders (s : State) (root : H256) : List AccountId32 :=
  s.config.validators.dedup.filter fun account => s.snapshotSubmissions.lookup account = some root

/-- A submission that is accepted either leaves the counts of all recorded roots below what is asked
for, or so many validators have the submitted root as their record. -/
def Supported (s : State) : Op → Prop
  | .configure _ _ => True
  | .submitRoot caller snapshot root =>
    let s' := recordSubmission s caller snapshot root
    caller ∈ s.config.validators → s.currentSnapshot = snapshot →
      ¬ Reached s' ∨ s.config.minimumEndorsements.toNat ≤ (recorders s' root).length

instance (s : State) : (op : Op) → Decidable (Supported s op)
  | .configure _ _ => isTrue trivial
  | .submitRoot _ _ _ => inferInstanceAs (Decidable (_ → _ → _ ∨ _))

section Specs

variable {s s' : State} {caller who : AccountId32} {snapshot snap : U128} {root : H256}

theorem foldl_countEndorsement (s : State) (t : StorageMap H256 U128 × List H256) :
    s.snapshotSubmissionsAccounts.foldl (countEndorsement s) t = (recordedRoots s).foldl addVote t := by
  rw [recordedRoots, List.foldl_filterMap]
  congr 1
  funext t a
  unfold countEndorsement
  split <;> rename_i hl <;> rw [hl]

theorem isSome_validateBlockStateRoot (s : State) :
    (validateBlockStateRoot s).2.isSome = true ↔ s.config.minimumEndorsements = 0 ∨ Reached s := by
  have hc : ∀ candidate, ((recordedRoots s).foldl addVote (s.endorsementsPerRoot, [])).1.getD
      candidate 0 = counted s candidate := fun candidate => getD_foldl_addVote _ _ candidate
  have hm : ∀ candidate, candidate ∈ ((recordedRoots s).foldl addVote
      (s.endorsementsPerRoot, [])).2 ↔ candidate ∈ recordedRoots s := by
    intro candidate
    rw [mem_foldl_addVote]
    exact or_iff_right List.not_mem_nil
  have hz : s.config.minimumEndorsements.setWidth 128 ≤ (0 : U128) ↔
      s.config.minimumEndorsements = 0 := by
    constructor
    · intro hl
      exact BitVec.eq_of_toNat_eq (Nat.le_zero.mp hl)
    · rintro hz
      rw [hz]
      decide
  unfold validateBlockStateRoot
  rw [foldl_countEndorsement]
  rw [Option.isSome_ite', BitVec.not_lt, le_foldl_pickLarger, hz]
  simp only [hc, hm, Reached]

theorem submitRoot_spec (h : submitRoot s who snap root = .ok s') :
    who ∈ s.config.validators ∧ s.currentSnapshot = snap ∧
      let t := recordSubmission s who snap root
      let t' := { t with endorsementsPerRoot := (validateBlockStateRoot t).1 }
      s' = if (validateBlockStateRoot t).2.isSome then finalizeSnapshot t' root else t' := by
  simp only [submitRoot, failIfNotValidator, ok_iff] at h
  obtain ⟨-, hv, -, hs, rfl⟩ := h
  exact ⟨hv, hs, rfl⟩

inductive Stores (s s' : State) : Op → Prop
  | nothing {op : Op} (root : s'.root = s.root) (stored : s'.stored = s.stored) : Stores s s' op
  | one {caller : AccountId32} {root : H256}
      (validator : caller ∈ s.config.validators)
      (reached : s.config.minimumEndorsements = 0 ∨
        Reached (recordSubmission s caller s.currentSnapshot root))
      (inserted : s'.root = s.root.insert s.currentSnapshot root)
      (stored : s'.stored = s.stored ++ [⟨s.currentSnapshot, root, s.config.validators,
        s.config.minimumEndorsements.toNat,
        (recordSubmission s caller s.currentSnapshot root).submissions⟩]) :
      Stores s s' (.submitRoot caller s.currentSnapshot root)

theorem step_stores (s : State) (op : Op) : Stores s (step s op) op := by
  cases op with
  | configure who arguments =>
    refine transact_induction (P := fun t : State => Stores s t (.configure who arguments))
      (.nothing rfl rfl) fun t hc => ?_
    simp only [configure, ok_iff] at hc
    obtain ⟨-, -, rfl⟩ := hc
    exact .nothing rfl rfl
  | submitRoot who snap root =>
    refine transact_induction (P := fun t : State => Stores s t (.submitRoot who snap root))
      (.nothing rfl rfl) fun t hs => ?_
    obtain ⟨hv, rfl, rfl⟩ := submitRoot_spec hs
    have hf := isSome_validateBlockStateRoot (recordSubmission s who s.currentSnapshot root)
    split_ifs with ho
    · exact .one hv (hf.mp ho) rfl rfl
    · exact .nothing rfl rfl

-- The calls of a run.
variable {ops : List Op}

def Kept (ops : List Op) (s : State) : Prop :=
  ∀ account root, s.snapshotSubmissions.lookup account = some root →
    ∃ snapshot, ⟨account, snapshot, snapshot, root⟩ ∈ s.submissions ∧
      .submitRoot account snapshot root ∈ ops

theorem Kept.recordSubmission (h : Kept ops s) (hm : .submitRoot who s.currentSnapshot root ∈ ops) :
    Kept ops (recordSubmission s who s.currentSnapshot root) := by
  intro account root' hl
  dsimp only [Validator.recordSubmission] at hl ⊢
  rw [lookup_insert_eq] at hl
  split_ifs at hl with hq
  · cases hl
    cases hq
    exact ⟨s.currentSnapshot, List.mem_append_right _ (List.mem_singleton_self _), hm⟩
  · obtain ⟨snap, hs, ho⟩ := h account root' hl
    exact ⟨snap, List.mem_append_left _ hs, ho⟩

theorem step_kept {op : Op} (hm : op ∈ ops) (h : Kept ops s) : Kept ops (step s op) := by
  cases op with
  | configure who arguments =>
    refine transact_induction (P := Kept ops) h fun t hc => ?_
    simp only [configure, ok_iff] at hc
    obtain ⟨-, -, rfl⟩ := hc
    exact h
  | submitRoot who snap root =>
    refine transact_induction (P := Kept ops) h fun t hs => ?_
    obtain ⟨-, rfl, rfl⟩ := submitRoot_spec hs
    have hr := h.recordSubmission hm
    split_ifs
    · exact hr
    · exact hr

def RootsApart (ops : List Op) : Prop :=
  ∀ caller snapshot caller' snapshot' root, .submitRoot caller snapshot root ∈ ops →
    .submitRoot caller' snapshot' root ∈ ops → snapshot = snapshot'

-- A record with the submitted root is one of the current snapshot.
theorem recorders_sublist_endorsers (ha : RootsApart ops) (h : Kept ops s)
    (hm : .submitRoot who s.currentSnapshot root ∈ ops) :
    (recorders (recordSubmission s who s.currentSnapshot root) root).Sublist
      (endorsers s.config.validators (recordSubmission s who s.currentSnapshot root).submissions
        s.currentSnapshot root) := by
  refine List.monotone_filter_right _ fun account hl => ?_
  obtain ⟨snap, hs, ho⟩ := h.recordSubmission hm account root (of_decide_eq_true hl)
  cases ha account snap who s.currentSnapshot root ho hm
  exact decide_eq_true hs

theorem step_endorsed {op : Op} (ha : RootsApart ops) (hm : op ∈ ops) (hs : Supported s op)
    (hk : Kept ops s) (h : ∀ e ∈ s.stored, e.Endorsed) : ∀ e ∈ (step s op).stored, e.Endorsed := by
  have hst := step_stores s op
  generalize step s op = s' at hst
  cases hst with
  | nothing _ ht =>
    rw [ht]
    exact h
  | one hv hr _ ht =>
    rw [ht, List.forall_mem_append, List.forall_mem_singleton]
    refine ⟨h, ?_⟩
    rcases hr with hz | hr
    · rw [StoredRoot.Endorsed, hz]
      exact Nat.zero_le _
    · refine ((hs hv rfl).resolve_left (not_not_intro hr)).trans ?_
      exact (recorders_sublist_endorsers ha hk hm).length_le

def RootsLogged (s : State) : Prop :=
  ∀ snapshot root, s.root.lookup snapshot = some root →
    ∃ e ∈ s.stored, e.snapshot = snapshot ∧ e.root = root

theorem step_rootsLogged (op : Op) (hs : RootsLogged s) : RootsLogged (step s op) := by
  intro snap root hr
  have hst := step_stores s op
  generalize step s op = s' at hst hr
  cases hst with
  | nothing ha ht =>
    rw [ha] at hr
    rw [ht]
    exact hs snap root hr
  | one _ _ hn ht =>
    rw [hn, lookup_insert_eq] at hr
    rw [ht]
    split_ifs at hr with hq
    · exact ⟨_, List.mem_append_right _ (List.mem_singleton_self _), hq.symm, Option.some.inj hr⟩
    · obtain ⟨e, he, hsn, hr'⟩ := hs snap root hr
      exact ⟨e, List.mem_append_left _ he, hsn, hr'⟩

end Specs

section Runs

variable {s : State}

def mockValidator : State where
  config := ⟨9, 2, [1, 2, 3]⟩
  currentSnapshot := 1
  root := ∅
  snapshotSubmissions := ∅
  snapshotSubmissionsAccounts := []
  endorsementsPerRoot := ∅
  submissions := []
  stored := []

theorem new_mockValidator : new 9 2 [3, 1, 2] = .ok mockValidator := by
  rfl

structure Contiguous (n : ℕ) (s : State) : Prop where
  mem_iff : ∀ snap, snap ∈ s.root ↔ 0 < snap.toNat ∧ snap.toNat < s.currentSnapshot.toNat
  pos : 0 < s.currentSnapshot.toNat
  le : s.currentSnapshot.toNat ≤ n + 1

theorem step_root (s : State) (op : Op) : ((step s op).root = s.root ∧
      (step s op).currentSnapshot = s.currentSnapshot) ∨ ∃ root,
      (step s op).root = s.root.insert s.currentSnapshot root ∧
        (step s op).currentSnapshot = s.currentSnapshot + 1 := by
  cases op with
  | configure who arguments =>
    refine .inl (transact_induction (P := fun t : State => t.root = s.root ∧
      t.currentSnapshot = s.currentSnapshot) ⟨rfl, rfl⟩ fun t hc => ?_)
    simp only [configure, ok_iff] at hc
    obtain ⟨-, -, rfl⟩ := hc
    exact ⟨rfl, rfl⟩
  | submitRoot who snap root =>
    rw [step]
    cases hc : submitRoot s who snap root with
    | error e => exact .inl ⟨rfl, rfl⟩
    | ok t =>
      obtain ⟨-, -, rfl⟩ := submitRoot_spec hc
      split_ifs
      · exact .inr ⟨root, rfl, rfl⟩
      · exact .inl ⟨rfl, rfl⟩

theorem step_contiguous {n : ℕ} (h : Contiguous n s) (hn : n + 2 < 2 ^ 128) (op : Op) :
    Contiguous (n + 1) (step s op) ∧ ∀ snap root, s.root.lookup snap = some root →
      (step s op).root.lookup snap = some root := by
  have hl := h.le
  rcases step_root s op with ⟨hr, hc⟩ | ⟨root, hr, hc⟩
  · rw [hr]
    exact ⟨⟨by rw [hr, hc]; exact h.mem_iff, hc ▸ h.pos, by rw [hc]; omega⟩, fun _ _ hs => hs⟩
  · have hs : (s.currentSnapshot + 1).toNat = s.currentSnapshot.toNat + 1 :=
      BitVec.toNat_add_of_lt (show s.currentSnapshot.toNat + 1 < 2 ^ 128 by omega)
    rw [← hc] at hs
    refine ⟨⟨fun snap => ?_, by omega, by omega⟩, fun snap root' hf => ?_⟩
    · have hp := h.pos
      rw [hr, hs, AList.mem_insert, h.mem_iff, ← BitVec.toNat_inj]
      omega
    · -- the current snapshot has no root yet
      rw [hr, lookup_insert_eq, if_neg]
      · exact hf
      · rintro rfl
        have hm := (h.mem_iff _).mp (AList.lookup_isSome.mp (Option.isSome_of_eq_some hf))
        exact lt_irrefl _ hm.2

theorem run_contiguous {n : ℕ} (h : Contiguous n s) (ops : List Op)
    (hn : n + ops.length + 1 < 2 ^ 128) : Contiguous (n + ops.length) (run step s ops) ∧
      ∀ snap root, s.root.lookup snap = some root →
        (run step s ops).root.lookup snap = some root := by
  induction ops generalizing s n with
  | nil => exact ⟨h, fun _ _ hs => hs⟩
  | cons op ops ih =>
    rw [List.length_cons] at hn
    obtain ⟨hs, hk⟩ := step_contiguous h (by omega) op
    obtain ⟨hr, hk'⟩ := ih hs (by omega)
    rw [List.length_cons, ← Nat.succ_add_eq_add_succ]
    exact ⟨hr, fun snap root hf => hk' snap root (hk snap root hf)⟩

/-- In every run of a new contract that does not use up the snapshot numbers, the roots are those of
exactly the snapshots before the current one, and a stored root is never replaced. -/
theorem stored_roots_final {admin : AccountId32} {minimumEndorsements : BitVec 16}
    {validators : List AccountId32} (hnew : new admin minimumEndorsements validators = .ok s)
    (before after : List Op) (hlength : (before ++ after).length + 1 < 2 ^ 128) :
    (∀ snapshot, snapshot ∈ (run step s before).root ↔
      0 < snapshot.toNat ∧ snapshot.toNat < (run step s before).currentSnapshot.toNat) ∧
    ∀ snapshot root, (run step s before).root.lookup snapshot = some root →
      (run step s (before ++ after)).root.lookup snapshot = some root := by
  have hs : Contiguous 0 s := by
    simp only [new, ok_iff] at hnew
    obtain ⟨-, -, -, -, rfl⟩ := hnew
    refine ⟨fun snap => ?_, Nat.one_pos, le_rfl⟩
    simp only [default, AList.notMem_empty, false_iff]
    have ho : (1 : U128).toNat = 1 := rfl
    omega
  rw [List.length_append] at hlength
  obtain ⟨hb, -⟩ := run_contiguous hs before (by omega)
  rw [run_append]
  exact ⟨hb.mem_iff, (run_contiguous hb after (by omega)).2⟩

theorem stored_roots_final_two : (run step mockValidator [.submitRoot 1 1 7, .submitRoot 2 1 7,
      .submitRoot 3 2 8, .submitRoot 3 1 9]).root.lookup 1 = some 7 :=
  (stored_roots_final new_mockValidator [.submitRoot 1 1 7, .submitRoot 2 1 7]
    [.submitRoot 3 2 8, .submitRoot 3 1 9] (by decide)).2 1 7 (by decide +kernel)

end Runs

end Acurast.Hyperdrive.Validator
