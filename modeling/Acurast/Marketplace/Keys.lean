import Acurast.Marketplace.Mock
import Acurast.Marketplace.Staffing

/-! The key ids of the mutable jobs. They are kept by the hash of owner and script, so they stay with their
jobs only as long as no two jobs come to have the same hash. -/

namespace Acurast.Marketplace

open Base

structure Keyring (A : Type) where
  registrations : StorageMap (JobId A) (JobRegistration A)
  editors : StorageMap (JobId A) A
  jobKeyIds : StorageMap (JobId A) KeyId
  deploymentHashes : StorageMap (JobId A) DeploymentHash
  deploymentKeyIds : StorageMap DeploymentHash KeyId

variable {A : Type} {T : Config A}

def Office.keyring (o : Office T) : Keyring A :=
  ⟨o.registrations, o.editors, o.jobKeyIds, o.deploymentHashes, o.deploymentKeyIds⟩

def State.keyring (s : State T) : Keyring A := s.office.keyring

theorem transferPositive_keyring (h : transferPositive s p n = .ok s') :
    s'.keyring = s.keyring := by
  unfold transferPositive at h
  split_ifs at h
  · simp only [ok_iff] at h
    obtain ⟨w, -, rfl⟩ := h
    rfl
  · rw [pure_eq_ok.mp h]

variable [DecidableEq A] {s s' s₁ s₂ : State T} {p : A} {j : JobId A} {registration reg : JobRegistration A}
  {b b' : Keyring A} {key : KeyId} {hash : DeploymentHash}

/-- A deployment hash is free for a key id: nothing is kept under it, and other mutable jobs that have it
were given the same key id. -/
abbrev Vacant (b : Keyring A) (hash : DeploymentHash) (key : KeyId) : Prop :=
  b.deploymentKeyIds.lookup hash = none ∧
    ∀ j ∈ b.editors.keys, b.deploymentHashes.lookup j = some hash → b.jobKeyIds.lookup j = some key

/-- What a call does to the keys, with the job it takes a key id from and that key id. A key id that moves
to another hash finds it free. -/
inductive KeyStep (T : Config A) (b : Keyring A) : Option (JobId A × KeyId) → Keyring A → Prop
  | keep : KeyStep T b none b
  | register {j : JobId A} {registration : JobRegistration A} (plain : b.editors.lookup j = none) :
      KeyStep T b none { b with registrations := b.registrations.insert j registration }
  | revise {j : JobId A} {registration registration' : JobRegistration A}
      (found : b.registrations.lookup j = some registration)
      (script : registration'.script = registration.script) :
      KeyStep T b none { b with registrations := b.registrations.insert j registration' }
  | deregister {j : JobId A} :
      KeyStep T b none { b with
        registrations := b.registrations.erase j
        jobKeyIds := b.jobKeyIds.erase j }
  | transferEditor {j : JobId A} {editor : A} {newEditor : Option A}
      (found : b.editors.lookup j = some editor) :
      KeyStep T b none { b with editors := setOrRemove b.editors j newEditor }
  | edit {j : JobId A} {editor : A} {registration : JobRegistration A} {script : Script} {key : KeyId}
      (mutable : b.editors.lookup j = some editor)
      (registered : b.registrations.lookup j = some registration)
      (found : b.deploymentKeyIds.lookup (T.deploymentHash j.1 registration.script) = some key)
      (vacant : T.deploymentHash j.1 script ≠ T.deploymentHash j.1 registration.script →
        Vacant b (T.deploymentHash j.1 script) key) :
      KeyStep T b (some (j, key)) { b with
        registrations := b.registrations.insert j { registration with script }
        deploymentHashes := b.deploymentHashes.insert j (T.deploymentHash j.1 script)
        deploymentKeyIds := (b.deploymentKeyIds.erase
          (T.deploymentHash j.1 registration.script)).insert (T.deploymentHash j.1 script) key }
  | immutable {j : JobId A} {registration : JobRegistration A} (plain : b.editors.lookup j = none) :
      KeyStep T b none { b with
        registrations := b.registrations.insert j registration
        deploymentHashes := b.deploymentHashes.insert j (T.deploymentHash j.1 registration.script) }
  | deploy {j : JobId A} {editor : A} {registration : JobRegistration A}
      (vacant : Vacant b (T.deploymentHash j.1 registration.script) (T.keyIdHash j)) :
      KeyStep T b none {
        registrations := b.registrations.insert j registration
        editors := b.editors.insert j editor
        jobKeyIds := b.jobKeyIds.insert j (T.keyIdHash j)
        deploymentHashes := b.deploymentHashes.insert j (T.deploymentHash j.1 registration.script)
        deploymentKeyIds := b.deploymentKeyIds.insert (T.deploymentHash j.1 registration.script)
          (T.keyIdHash j) }
  | redeploy {original j : JobId A} {originalEditor editor : A} {registration : JobRegistration A}
      {originalHash : DeploymentHash} {key : KeyId}
      (mutable : b.editors.lookup original = some originalEditor)
      (deployed : b.deploymentHashes.lookup original = some originalHash)
      (found : b.deploymentKeyIds.lookup originalHash = some key)
      (vacant : T.deploymentHash j.1 registration.script ≠ originalHash →
        Vacant b (T.deploymentHash j.1 registration.script) key) :
      KeyStep T b (some (original, key)) {
        registrations := b.registrations.insert j registration
        editors := b.editors.insert j editor
        jobKeyIds := b.jobKeyIds.insert j key
        deploymentHashes := b.deploymentHashes.insert j (T.deploymentHash j.1 registration.script)
        deploymentKeyIds := ((b.deploymentKeyIds.erase originalHash).insert
          (T.deploymentHash j.1 registration.script) key).insert
            (T.deploymentHash j.1 registration.script) key }

def noteKeys (given : JobId A → Option KeyId) (b : Keyring A) : JobId A → Option KeyId :=
  fun j => (b.jobKeyIds.lookup j).or (given j)

/-- Every mutable job has been given a key id, and no other one is kept under its hash. -/
structure Keyed (T : Config A) (given : JobId A → Option KeyId) (b : Keyring A) : Prop where
  own : ∀ j editor, b.editors.lookup j = some editor → ∃ key hash, given j = some key ∧
    b.deploymentHashes.lookup j = some hash ∧ ∀ key' ∈ b.deploymentKeyIds.lookup hash, key' = key
  script : ∀ j editor registration hash, b.editors.lookup j = some editor →
    b.registrations.lookup j = some registration → b.deploymentHashes.lookup j = some hash →
    T.deploymentHash j.1 registration.script = hash
  noted : ∀ j key, b.jobKeyIds.lookup j = some key → given j = some key

variable {given : JobId A → Option KeyId}

theorem Keyed.noteKeys_eq (h : Keyed T given b)
    (hs : ∀ key, b'.jobKeyIds.lookup j = some key → b.jobKeyIds.lookup j = some key) :
    noteKeys given b' j = given j := by
  unfold noteKeys
  cases hf : b'.jobKeyIds.lookup j with
  | none => rfl
  | some key => exact (h.noted j key (hs key hf)).symm

theorem Keyed.moved (h : Keyed T given b) {moved : JobId A × KeyId} (hs : KeyStep T b (some moved) b') :
    given moved.1 = some moved.2 := by
  cases hs with
  | edit hm hr hf hv =>
    obtain ⟨key', hash, hg, hh, hk⟩ := h.own _ _ hm
    have hc := h.script _ _ _ _ hm hr hh
    rw [hc] at hf
    rw [hg, hk _ hf]
  | redeploy hm hd hf hv =>
    obtain ⟨key', hash, hg, hh, hk⟩ := h.own _ _ hm
    obtain rfl := Option.mem_unique hd hh
    rw [hg, hk _ hf]

variable {original : DeploymentHash} {editor : A} {key' : KeyId}
  {m : StorageMap DeploymentHash KeyId} {n : ℕ} {ex : ExecutionSpecifier}
  {mins : Option (List (PoolId × ℕ × ℕ))} {op : Op T}

theorem free_of_ne (found : b.deploymentKeyIds.lookup original = some key)
    (vacant : hash ≠ original → Vacant b hash key) :
    b.deploymentKeyIds.lookup hash = some key ∨ Vacant b hash key := by
  by_cases hs : hash = original
  · exact .inl (hs ▸ found)
  · exact .inr (vacant hs)

theorem Keyed.given_of_vacant (h : Keyed T given b)
    (hv : b.deploymentKeyIds.lookup hash = some key ∨ Vacant b hash key)
    (hm : b.editors.lookup j = some editor) (hh : b.deploymentHashes.lookup j = some hash)
    (hg : given j = some key') : key' = key := by
  rcases hv with hke | ⟨-, ho⟩
  · obtain ⟨key₀, ha₀, hg₀, hh₀, hk⟩ := h.own j editor hm
    obtain rfl := Option.mem_unique hh hh₀
    obtain rfl := Option.mem_unique hg hg₀
    exact (hk key hke).symm
  · have hme : j ∈ b.editors.keys := AList.mem_keys.mp (AList.lookup_isSome.mp (by rw [hm]; rfl))
    exact Option.some.inj (hg.symm.trans (h.noted j key (ho j hme hh)))

theorem Keyed.write (h : Keyed T given b)
    (hv : b.deploymentKeyIds.lookup hash = some key ∨ Vacant b hash key)
    (hm : ∀ ha' key', m.lookup ha' = some key' →
      ha' = hash ∧ key' = key ∨ b.deploymentKeyIds.lookup ha' = some key') :
    Keyed T given { b with deploymentKeyIds := m } := by
  refine ⟨fun j editor hu => ?_, h.script, h.noted⟩
  obtain ⟨key₀, ha₀, hg, hh, hk⟩ := h.own j editor hu
  refine ⟨key₀, ha₀, hg, hh, fun key' hk' => ?_⟩
  rcases hm ha₀ key' hk' with ⟨rfl, rfl⟩ | hb
  · exact (h.given_of_vacant hv hu hh hg).symm
  · exact hk key' hb

theorem Keyed.place (h : Keyed T given b) (hk : b.deploymentKeyIds.lookup hash = some key)
    (hg : given j = some key) {editors : StorageMap (JobId A) A}
    (hd : ∀ j', j' ≠ j → editors.lookup j' = b.editors.lookup j')
    (hs : T.deploymentHash j.1 reg.script = hash) :
    Keyed T given { b with
      registrations := b.registrations.insert j reg
      editors
      deploymentHashes := b.deploymentHashes.insert j hash } := by
  refine ⟨fun j' editor hm => ?_, fun j' editor r ha' hm hr hh => ?_, h.noted⟩
  · simp only [lookup_insert_eq]
    by_cases hj : j' = j
    · rw [if_pos hj]
      refine ⟨key, hash, hj ▸ hg, rfl, fun key' hk' => ?_⟩
      exact Option.mem_unique hk' hk
    · rw [if_neg hj]
      exact h.own j' editor (hd j' hj ▸ hm)
  · simp only [lookup_insert_eq] at hr hh
    by_cases hj : j' = j
    · rw [if_pos hj] at hr hh
      rw [hj, ← Option.some.inj hr, ← Option.some.inj hh]
      exact hs
    · rw [if_neg hj] at hr hh
      exact h.script j' editor r ha' (hd j' hj ▸ hm) hr hh

theorem Keyed.give (h : Keyed T given b) (hp : b.editors.lookup j = none) (key : KeyId) :
    Keyed T (noteKeys given { b with jobKeyIds := b.jobKeyIds.insert j key })
      { b with jobKeyIds := b.jobKeyIds.insert j key } := by
  have ho : ∀ j', j' ≠ j →
      noteKeys given { b with jobKeyIds := b.jobKeyIds.insert j key } j' = given j' := by
    intro j' hj
    refine h.noteKeys_eq fun key' hk' => ?_
    rwa [← AList.lookup_insert_ne hj]
  refine ⟨fun j' editor hm => ?_, h.script, fun j' key' hk' => ?_⟩
  · have hj : j' ≠ j := by
      rintro rfl
      exact absurd (hp.symm.trans hm) (by simp)
    rw [ho j' hj]
    exact h.own j' editor hm
  · unfold noteKeys
    rw [hk', Option.some_or]

theorem Keyed.dropEditor (h : Keyed T given b) (j : JobId A) :
    Keyed T given { b with editors := b.editors.erase j } := by
  have hb : ∀ j' editor, (b.editors.erase j).lookup j' = some editor →
      b.editors.lookup j' = some editor := by
    intro j' editor hm
    exact (of_lookup_erase hm).2
  exact ⟨fun j' editor hm => h.own j' editor (hb j' editor hm),
    fun j' editor r hash hm => h.script j' editor r hash (hb j' editor hm), h.noted⟩

theorem Keyed.plain (h : Keyed T given b) (hp : b.editors.lookup j = none)
    {registrations : StorageMap (JobId A) (JobRegistration A)}
    {has : StorageMap (JobId A) DeploymentHash}
    (hre : ∀ j', j' ≠ j → registrations.lookup j' = b.registrations.lookup j')
    (ha : ∀ j', j' ≠ j → has.lookup j' = b.deploymentHashes.lookup j') :
    Keyed T given { b with registrations, deploymentHashes := has } := by
  have hn : ∀ j' editor, b.editors.lookup j' = some editor → j' ≠ j := by
    rintro j' editor hm rfl
    exact absurd (hp.symm.trans hm) (by simp)
  refine ⟨fun j' editor hm => ?_, fun j' editor r hash hm hr hh => ?_, h.noted⟩
  · have hj := hn j' editor hm
    simp only [ha j' hj]
    exact h.own j' editor hm
  · have hj := hn j' editor hm
    simp only [hre j' hj] at hr
    simp only [ha j' hj] at hh
    exact h.script j' editor r hash hm hr hh

theorem Keyed.noteKeys (h : Keyed T given b) : Keyed T (noteKeys given b) b := by
  have hs : Marketplace.noteKeys given b = given := funext fun j => h.noteKeys_eq fun _ => id
  rw [hs]
  exact h

theorem Keyed.deploy (h : Keyed T given b)
    (hv : b.deploymentKeyIds.lookup hash = some key ∨ Vacant b hash key)
    (hm : ∀ ha' key', m.lookup ha' = some key' →
      ha' = hash ∧ key' = key ∨ b.deploymentKeyIds.lookup ha' = some key')
    (hke : m.lookup hash = some key) (hs : T.deploymentHash j.1 reg.script = hash)
    (hb' : b' = {
      registrations := b.registrations.insert j reg
      editors := b.editors.insert j editor
      jobKeyIds := b.jobKeyIds.insert j key
      deploymentHashes := b.deploymentHashes.insert j hash
      deploymentKeyIds := m }) : Keyed T (Marketplace.noteKeys given b') b' := by
  have hw : Keyed T given { b with deploymentKeyIds := m } := h.write hv hm
  -- what was known of the job before does not matter
  have hd := hw.dropEditor j
  have hp : (b.editors.erase j).lookup j = none := AList.lookup_erase _ _
  have hg := hd.give hp key
  have hk : Marketplace.noteKeys given { b with
      editors := b.editors.erase j
      deploymentKeyIds := m
      jobKeyIds := b.jobKeyIds.insert j key } j = some key := by
    unfold Marketplace.noteKeys
    rw [AList.lookup_insert, Option.some_or]
  have ho : ∀ j', j' ≠ j → (b.editors.insert j editor).lookup j' = (b.editors.erase j).lookup j' := by
    intro j' hj
    rw [AList.lookup_insert_ne hj, AList.lookup_erase_ne hj]
  subst hb'
  exact hg.place hke hk ho hs

theorem KeyStep.keyed {moved : Option (JobId A × KeyId)} (ht : KeyStep T b moved b')
    (h : Keyed T given b) : Keyed T (noteKeys given b') b' := by
  cases ht with
  | keep => exact h.noteKeys
  | register hp =>
    exact (h.plain hp (fun j' hj => AList.lookup_insert_ne hj) fun _ _ => rfl).noteKeys
  | @revise j reg reg' hf hs =>
    refine Keyed.noteKeys ⟨h.own, fun j' editor r hash hu hr hh => ?_, h.noted⟩
    simp only [lookup_insert_eq] at hr
    split_ifs at hr with hj
    · rw [← Option.some.inj hr, hs]
      exact h.script j' editor reg hash hu (hj ▸ hf) hh
    · exact h.script j' editor r hash hu hr hh
  | @deregister j =>
    refine Keyed.noteKeys ⟨h.own, fun j' editor r hash hu hr hh => ?_, fun j' key hk => ?_⟩
    · simp only [lookup_erase_eq] at hr
      split_ifs at hr
      exact h.script j' editor r hash hu hr hh
    · simp only [lookup_erase_eq] at hk
      split_ifs at hk
      exact h.noted j' key hk
  | @transferEditor j editor ed hf =>
    cases ed with
    | none => exact (h.dropEditor j).noteKeys
    | some ed =>
      -- the job was mutable before
      have hb : ∀ j' e, (b.editors.insert j ed).lookup j' = some e →
          ∃ e, b.editors.lookup j' = some e := by
        intro j' e hu
        rw [lookup_insert_eq] at hu
        split_ifs at hu with hj
        · exact ⟨editor, hj ▸ hf⟩
        · exact ⟨e, hu⟩
      refine Keyed.noteKeys ⟨fun j' e hu => ?_, fun j' e r hash hu => ?_, h.noted⟩
      · obtain ⟨e', hm'⟩ := hb j' e hu
        exact h.own j' e' hm'
      · obtain ⟨e', hm'⟩ := hb j' e hu
        exact h.script j' e' r hash hm'
  | @edit j editor reg hs key hm hre hf hv =>
    have hg : given j = some key := h.moved (.edit hm hre hf hv)
    have hw : Keyed T given { b with deploymentKeyIds := (b.deploymentKeyIds.erase
        (T.deploymentHash j.1 reg.script)).insert (T.deploymentHash j.1 hs) key } := by
      refine h.write (free_of_ne hf hv) fun ha' key' hk' => ?_
      exact (of_lookup_insert hk').imp (And.imp_right Eq.symm) fun hk => (of_lookup_erase hk.2).2
    exact (hw.place (AList.lookup_insert _) hg (fun _ _ => rfl) rfl).noteKeys
  | immutable hp =>
    exact (h.plain hp (fun j' hj => AList.lookup_insert_ne hj)
      fun j' hj => AList.lookup_insert_ne hj).noteKeys
  | deploy hv =>
    refine h.deploy (.inr hv) (fun ha' key' hk' => ?_) (AList.lookup_insert _) rfl rfl
    exact (of_lookup_insert hk').imp (And.imp_right Eq.symm) And.right
  | @redeploy original j originalEditor editor reg originalHash key hm hd hf hv =>
    refine h.deploy (free_of_ne hf hv) (fun ha' key' hk' => ?_) (AList.lookup_insert _) rfl rfl
    rw [AList.insert_insert] at hk'
    exact (of_lookup_insert hk').imp (And.imp_right Eq.symm) fun hk => (of_lookup_erase hk.2).2

theorem kept_of_free (hf : b.deploymentKeyIds.lookup hash = some key' ∨ Vacant b hash key')
    (hb : b.deploymentKeyIds.lookup hash = some key) : some key' = some key := by
  rcases hf with hk | ⟨hn, -⟩
  · exact hk.symm.trans hb
  · exact absurd (hn.symm.trans hb) (by simp)

theorem eq_of_rekeyed {before after : DeploymentHash}
    (hf : b.deploymentKeyIds.lookup after = some key' ∨ Vacant b after key')
    (hk : b.deploymentKeyIds.lookup before = some key')
    (hb : b.deploymentKeyIds.lookup hash = some key)
    (ha : ((b.deploymentKeyIds.erase before).insert after key').lookup hash ≠ some key) : key' = key := by
  simp only [lookup_insert_eq, lookup_erase_eq] at ha
  split_ifs at ha with hn hold
  · exact absurd (kept_of_free hf (hn ▸ hb)) ha
  · rw [hold, hk] at hb
    exact Option.some.inj hb
  · exact absurd hb ha

theorem KeyStep.leaves {moved : Option (JobId A × KeyId)} (ht : KeyStep T b moved b')
    (hb : b.deploymentKeyIds.lookup hash = some key)
    (ha : b'.deploymentKeyIds.lookup hash ≠ some key) : ∃ j, moved = some (j, key) := by
  cases ht with
  | keep | register | revise | deregister | transferEditor | immutable => exact absurd hb ha
  | @edit j editor reg hs key' hm hr hf hv =>
    obtain rfl := eq_of_rekeyed (free_of_ne hf hv) hf hb ha
    exact ⟨j, rfl⟩
  | deploy hv =>
    simp only [lookup_insert_eq] at ha
    split_ifs at ha with hn
    · exact absurd (kept_of_free (.inr hv) (hn ▸ hb)) ha
    · exact absurd hb ha
  | @redeploy original j originalEditor editor reg originalHash key' hm hd hf hv =>
    rw [AList.insert_insert] at ha
    obtain rfl := eq_of_rekeyed (free_of_ne hf hv) hf hb ha
    exact ⟨original, rfl⟩

theorem Staffs.keyring {matcher : Option A} (h : Staffs matcher s s') : s'.keyring = s.keyring :=
  congrArg Office.keyring h.office

theorem unreserve_keyring (h : unreserve s j n = .ok s') : s'.keyring = s.keyring := by
  simp only [unreserve, ok_iff] at h
  obtain ⟨⟨⟩, -, rfl⟩ := h
  rfl

theorem handleReward_keyring (h : handleReward s j n = .ok s') : s'.keyring = s.keyring := by
  simp only [handleReward, ok_iff, Prod.exists] at h
  obtain ⟨s₁, hu, w, credit, -, rfl⟩ := h
  show s₁.keyring = s.keyring
  exact unreserve_keyring hu

theorem payMatcherReward_keyring (h : payMatcherReward s j n p = .ok s') :
    s'.keyring = s.keyring := by
  simp only [payMatcherReward, bind_eq_ok] at h
  obtain ⟨s₁, hu, s₂, hf, hr⟩ := h
  rw [transferPositive_keyring hr, transferPositive_keyring hf, unreserve_keyring hu]

theorem lockReward_keyring (h : lockReward s j n = .ok s') : s'.keyring = s.keyring := by
  simp only [lockReward, reserve, ok_iff] at h
  obtain ⟨a, -, w, -, x, -, rfl⟩ := h
  rfl

theorem finalizeJob_keyring (h : finalizeJob s j = .ok s') : s'.keyring = s.keyring := by
  simp only [finalizeJob, refund, unreserveRemaining, ok_iff, Prod.exists, Prod.mk.injEq] at h
  obtain ⟨s₁, remaining, ⟨a, -, w, -, rfl, rfl⟩, world', -, rfl⟩ := h
  rfl

theorem updateNextReportIndexOnAcknowledge_keyring {a : Assignment}
    (h : updateNextReportIndexOnAcknowledge s j p a ex = .ok s') :
    s'.keyring = s.keyring := by
  obtain ⟨s₁, _, hs, rfl⟩ := updateNextReportIndexOnAcknowledge_staffs none h
  exact hs.keyring

theorem processAcknowledgeMatch_keyring {keys : List PubKey}
    (h : processAcknowledgeMatch s p j ex keys = .ok s') : s'.keyring = s.keyring := by
  simp only [processAcknowledgeMatch, ok_iff, Prod.exists] at h
  obtain ⟨reg, -, s₁, changed, a', hu, h⟩ := h
  obtain ⟨a, -, -, -, -, -, rfl⟩ := updateAssignmentToAcknowledged_ok hu
  split_ifs at h
  · simp only [ok_iff] at h
    obtain ⟨s₂, ht, s₃, hr, world, -, hp⟩ := h
    have hs : Staffs none { s with storedMatches := s.storedMatches.insert (p, j) a' } s₂ :=
      updateJobStatus_staffs ht
    have ha : s₃.keyring = s.keyring :=
      (updateNextReportIndexOnAcknowledge_keyring hr).trans hs.keyring
    cases hm : s₃.jobMatcher.lookup j with
    | none =>
      rw [hm] at hp
      rw [← pure_eq_ok.mp hp]
      exact ha
    | some m =>
      rw [hm] at hp
      exact (payMatcherReward_keyring hp).trans ha
  · rw [← pure_eq_ok.mp h]
    rfl

theorem doReport_keyring (h : doReport s j p = .ok s') : s'.keyring = s.keyring := by
  simp only [doReport, ok_iff, Prod.exists] at h
  obtain ⟨s₁, a', hu, reg, -, s₂, missing, v, hn, s₃, hr, s₄, hp, rfl⟩ := h
  obtain ⟨a, -, -, -, rfl, rfl⟩ := updateAssignment_ok hu
  obtain ⟨expected, reported, -, -, rfl, rfl⟩ := updateNextReportIndexOnReport_ok hn
  have hw : s₃.keyring = s.keyring := (handleReward_keyring hr).trans rfl
  have hs : Staffs none s₃ s₄ := doUpdateReputation_staffs hp
  have hre : s₄.keyring = s.keyring := hs.keyring.trans hw
  split_ifs
  · exact hre
  · exact hre

theorem registerFor_keyring (h : registerFor s j reg mins = .ok s') :
    s'.keyring = { s.keyring with registrations := s.storedJobRegistration.insert j reg } := by
  simp only [registerFor, registerHook, bind_eq_ok] at h
  obtain ⟨s₁, hs, s₂, ha, s₃, hm, r, -, hl⟩ := h
  have ht : s₁.keyring =
      { s.keyring with registrations := s.storedJobRegistration.insert j reg } := by
    simp only [storeRegistration, bind_eq_ok] at hs
    obtain ⟨⟨⟩, -, ⟨⟩, -, hs⟩ := hs
    rcases whenSome_eq_ok.mp hs with ⟨-, rfl⟩ | ⟨ms, -, hs⟩
    · rfl
    · simp only [ok_iff] at hs
      obtain ⟨⟨⟩, -, rfl⟩ := hs
      rfl
  have hd : Staffs none s₁ s₂ := admitJob_staffs ha
  rw [lockReward_keyring hl, (matchInstantly_staffs hm).keyring, hd.keyring, ht]

theorem releaseProcessor_keyring {now : ℕ} (h : releaseProcessor j reg now s p = .ok s') :
    s'.keyring = s.keyring := by
  simp only [releaseProcessor] at h
  rcases whenSome_eq_ok.mp h with ⟨-, rfl⟩ | ⟨a, -, h⟩
  · rfl
  · split_ifs at h
    · exact (handleReward_keyring h).trans rfl
    · rw [← pure_eq_ok.mp h]
      rfl

theorem deregisterHook_keyring (h : deregisterHook s j = .ok s') :
    s'.keyring = { s.keyring with jobKeyIds := s.jobKeyIds.erase j } := by
  simp only [deregisterHook, ok_iff] at h
  obtain ⟨st, -, reg, -, h⟩ := h
  cases st with
  | opened =>
    simp only [ok_iff] at h
    obtain ⟨s₂, hf, rfl⟩ := h
    exact (finalizeJob_keyring hf).trans rfl
  | matched =>
    simp only [ok_iff] at h
    obtain ⟨s₂, hf, rfl⟩ := h
    have hst : Staffs none s₂ (s₂.unassignAll j (s₂.processorsOf j)) := unassignAll_staffs s₂ j _
    exact hst.keyring.trans ((finalizeJob_keyring hf).trans rfl)
  | assigned count =>
    simp only [ok_iff] at h
    obtain ⟨now, -, s₂, hr, s₃, hf, rfl⟩ := h
    have hre : s₂.keyring = { s.keyring with jobKeyIds := s.jobKeyIds.erase j } := by
      refine foldlM_invariant (P := fun s' : State T => s'.keyring =
        { s.keyring with jobKeyIds := s.jobKeyIds.erase j }) ?_ hr rfl
      exact fun s₁ p s₂ ht hs => (releaseProcessor_keyring ht).trans hs
    exact (finalizeJob_keyring hf).trans hre

theorem deregisterFor_keyStep (h : deregisterFor s j = .ok s') :
    KeyStep T s.keyring none s'.keyring := by
  simp only [deregisterFor, ok_iff] at h
  obtain ⟨s₁, hh, rfl⟩ := h
  have hk := deregisterHook_keyring hh
  have hr : s₁.storedJobRegistration = s.storedJobRegistration :=
    congrArg Keyring.registrations hk
  have her : KeyStep T s.keyring none { s.keyring with
      registrations := s.storedJobRegistration.erase j
      jobKeyIds := s.jobKeyIds.erase j } := .deregister
  convert her using 1
  show { s₁.keyring with registrations := s₁.storedJobRegistration.erase j } = _
  rw [hk, hr]

theorem updateAllowedSources_keyStep {seq : ℕ} {ups : List (ListUpdateOperation × A)}
    (h : updateAllowedSources s p seq ups = .ok s') : KeyStep T s.keyring none s'.keyring := by
  obtain ⟨reg, sources, hr, -, rfl⟩ := updateAllowedSources_ok h
  exact .revise hr rfl

theorem transferEditor_keyStep {ed : Option A} (h : transferEditor s p j ed = .ok s') :
    KeyStep T s.keyring none s'.keyring := by
  simp only [transferEditor, ok_iff] at h
  obtain ⟨editor, hf, ⟨⟩, -, rfl⟩ := h
  exact .transferEditor hf

def Op.keySource : Op T → Option (JobId A)
  | .dispatch (.signed _) (.editScript j _) => some j
  | .dispatch (.signed _) (.deploy _ (.mutable _) (some j) _) => some j
  | _ => none

def movedKey (s : State T) : Op T → Option KeyId
  | .dispatch (.signed _) (.editScript j _) => do
    let registration ← s.storedJobRegistration.lookup j
    s.deploymentKeyIds.lookup (T.deploymentHash j.1 registration.script)
  | .dispatch (.signed _) (.deploy _ (.mutable _) (some j) _) => do
    let hash ← s.deploymentHashes.lookup j
    s.deploymentKeyIds.lookup hash
  | _ => none

def State.nextJob (s : State T) (who : A) : JobId A := (.acurast who, (nextJobId s).2)

def rehash (s : State T) (original updated : DeploymentHash) : Option (DeploymentHash × KeyId) := do
  let key ← s.deploymentKeyIds.lookup original
  if updated = original then none else some (updated, key)

def putKey (s : State T) : Op T → Option (DeploymentHash × KeyId)
  | .dispatch (.signed _) (.editScript j script) => do
    let registration ← s.storedJobRegistration.lookup j
    rehash s (T.deploymentHash j.1 registration.script) (T.deploymentHash j.1 script)
  | .dispatch (.signed who) (.deploy registration (.mutable _) (some j) _) => do
    let hash ← s.deploymentHashes.lookup j
    rehash s hash (T.deploymentHash (.acurast who) registration.script)
  | .dispatch (.signed who) (.deploy registration (.mutable _) none _) =>
    some (T.deploymentHash (.acurast who) registration.script, T.keyIdHash (s.nextJob who))
  | _ => none

def plainRegistration (s : State T) : Op T → Option (JobId A)
  | .dispatch (.signed who) (.register _ _) => some (s.nextJob who)
  | .dispatch (.signed who) (.deploy _ .immutable _ _) => some (s.nextJob who)
  | .execute (.registerJob j _) => some j
  | _ => none

/-- A key id is written only under a hash that is free for it, and no mutable job is registered again
without one. -/
def Unshared (s : State T) (op : Op T) : Prop :=
  (∀ put ∈ putKey s op, Vacant s.keyring put.1 put.2) ∧
    ∀ j ∈ plainRegistration s op, s.editors.lookup j = none

-- the hashes are a finite type, which must not be gone through
instance (s : State T) (op : Op T) : Decidable (Unshared s op) :=
  @instDecidableAnd _ _ (Option.decidableForallMem _) (Option.decidableForallMem _)

omit [DecidableEq A] in
theorem rehash_eq {updated : DeploymentHash}
    (hf : s.deploymentKeyIds.lookup original = some key) (hn : updated ≠ original) :
    rehash s original updated = some (updated, key) := by
  simp only [rehash, hf, Option.bind_eq_bind, Option.bind_some, if_neg hn]

def TakesKey (s : State T) (op : Op T) (s' : State T) : Prop :=
  ∃ moved, KeyStep T s.keyring moved s'.keyring ∧ op.keySource = moved.map Prod.fst ∧
    movedKey s op = moved.map Prod.snd

theorem takesKey_of_none (ht : KeyStep T s.keyring none s'.keyring)
    (hs : op.keySource = none) (hm : movedKey s op = none) : TakesKey s op s' :=
  ⟨none, ht, hs, hm⟩

theorem takesKey_of_keyring (hk : s'.keyring = s.keyring) (hs : op.keySource = none)
    (hm : movedKey s op = none) : TakesKey s op s' :=
  takesKey_of_none (hk ▸ .keep) hs hm

theorem editScript_takesKey {script : Script}
    (hu : Unshared s (.dispatch (.signed p) (.editScript j script)))
    (h : editScript s p j script = .ok s') :
    TakesKey s (.dispatch (.signed p) (.editScript j script)) s' := by
  simp only [editScript, transferKeyId, ok_iff, Prod.exists, Prod.mk.injEq] at h
  obtain ⟨editor, hm, ⟨⟩, -, ⟨⟩, -, reg, hr, s₁, _, ⟨key, hf, rfl, rfl⟩, rfl⟩ := h
  refine ⟨some (j, key), ?_, rfl, ?_⟩
  · refine .edit hm hr hf fun hn =>
      hu.1 (T.deploymentHash j.1 script, key) ?_
    simp only [putKey, hr, Option.bind_eq_bind, Option.bind_some]
    exact rehash_eq hf hn
  · simp only [movedKey, hr, Option.bind_eq_bind, Option.bind_some]
    exact hf

theorem deploy_takesKey {mutability : ScriptMutability A} {reuseKeysFrom : Option (JobId A)}
    (hu : Unshared s (.dispatch (.signed p) (.deploy reg mutability reuseKeysFrom mins)))
    (h : deploy s p reg mutability reuseKeysFrom mins = .ok s') :
    TakesKey s (.dispatch (.signed p) (.deploy reg mutability reuseKeysFrom mins)) s' := by
  simp only [deploy, bind_eq_ok] at h
  obtain ⟨⟨s₁, j⟩, hr, hre⟩ := h
  have hy := registerFor_keyring hre
  simp only [prepareDeployment, ok_iff, Prod.mk.injEq] at hr
  obtain ⟨s₂, hk, rfl, rfl⟩ := hr
  unfold TakesKey
  rw [hy]
  cases mutability with
  | immutable =>
    simp only [deployKeys, ok_iff] at hk
    obtain ⟨⟨⟩, -, rfl⟩ := hk
    exact ⟨none, .immutable (hu.2 _ rfl), rfl, rfl⟩
  | mutable editor =>
    simp only [deployKeys, ok_iff, Prod.exists] at hk
    obtain ⟨s₃, derivedEditor, key, hd, rfl⟩ := hk
    cases reuseKeysFrom with
    | none =>
      obtain ⟨rfl, hed⟩ := Prod.mk.inj (pure_eq_ok.mp hd)
      obtain ⟨rfl, rfl⟩ := Prod.mk.inj hed
      exact ⟨none, .deploy (hu.1 _ rfl), rfl, rfl⟩
    | some original =>
      simp only [deriveKeyId, transferKeyId, ok_iff, Prod.exists, Prod.mk.injEq] at hd
      obtain ⟨⟨⟩, -, originalEditor, hm, _, -, hash, hp, ⟨⟩, -, _, _, ⟨key', hf, rfl, rfl⟩,
        rfl, rfl, rfl⟩ := hd
      have hh : s.deploymentHashes.lookup original = some hash := hp
      refine ⟨some (original, key'), ?_, rfl, ?_⟩
      · refine .redeploy hm hp hf fun hn =>
          hu.1 (T.deploymentHash (.acurast p) reg.script, key') ?_
        simp only [putKey, hh, Option.bind_eq_bind, Option.bind_some]
        exact rehash_eq hf hn
      · simp only [movedKey, hh, Option.bind_eq_bind, Option.bind_some]
        exact hf

theorem dispatchSigned_takesKey {call : Call A} (hu : Unshared s (.dispatch (.signed p) call))
    (h : dispatchSigned s p call = .ok s') : TakesKey s (.dispatch (.signed p) call) s' := by
  have hs : Staffs (some p) s s' → s'.keyring = s.keyring := Staffs.keyring
  cases call with
  | register reg mins =>
    refine takesKey_of_none ?_ rfl rfl
    rw [registerFor_keyring (s := (nextJobId s).1) h]
    exact .register (hu.2 _ rfl)
  | deregister sequence => exact takesKey_of_none (deregisterFor_keyStep h) rfl rfl
  | updateAllowedSources sequence updates =>
    exact takesKey_of_none (updateAllowedSources_keyStep h) rfl rfl
  | setEnvironments sequence environments =>
    exact takesKey_of_keyring (hs (setEnvironmentFor_staffs h)) rfl rfl
  | advertise advertisement => exact takesKey_of_keyring (hs (doAdvertise_staffs h)) rfl rfl
  | deleteAdvertisement => exact takesKey_of_keyring (hs (deleteAdvertisement_staffs h)) rfl rfl
  | proposeMatching matching => exact takesKey_of_keyring (hs (processMatching_staffs h)) rfl rfl
  | proposeExecutionMatching matching =>
    exact takesKey_of_keyring (hs (processExecutionMatching_staffs h)) rfl rfl
  | acknowledgeMatch jobId pubKeys =>
    exact takesKey_of_keyring (processAcknowledgeMatch_keyring h) rfl rfl
  | acknowledgeExecutionMatch jobId executionIndex pubKeys =>
    exact takesKey_of_keyring (processAcknowledgeMatch_keyring h) rfl rfl
  | report jobId => exact takesKey_of_keyring (doReport_keyring h) rfl rfl
  | finalizeJob jobId => exact takesKey_of_keyring (hs (doCleanupAssignments_staffs h)) rfl rfl
  | cleanupStorage jobId maxIterations => cases h
  | cleanupAssignments jobIds => exact takesKey_of_keyring (hs (doCleanupAssignments_staffs h)) rfl rfl
  | cleanupAssignmentsFor processor jobIds =>
    exact takesKey_of_keyring (hs (doCleanupAssignments_staffs h)) rfl rfl
  | cleanupJobAssignments jobId =>
    exact takesKey_of_keyring (hs (cleanupJobAssignments_staffs h)) rfl rfl
  | cleanupJobMatcher jobId => exact takesKey_of_keyring (hs (cleanupJobMatcher_staffs h)) rfl rfl
  | deploy reg mutability reuseKeysFrom mins => exact deploy_takesKey hu h
  | editScript jobId script => exact editScript_takesKey hu h
  | transferEditor jobId newEditor => exact takesKey_of_none (transferEditor_keyStep h) rfl rfl
  | updatePriceSettings settings => cases h

theorem perform_takesKey (hu : Unshared s op) (h : perform s op = .ok s') :
    TakesKey s op s' := by
  cases op with
  | dispatch o call =>
    have hd : dispatch s o call = .ok s' := h
    unfold dispatch at hd
    split at hd
    · next hj maxIterations =>
      simp only [ok_iff] at hd
      obtain ⟨⟨⟩, -, rfl⟩ := hd
      have hs : Staffs none s (cleanupStorage s hj maxIterations) := cleanupStorage_staffs s _ _
      cases o <;> exact takesKey_of_keyring hs.keyring rfl rfl
    · simp only [ok_iff] at hd
      obtain ⟨⟨⟩, -, rfl⟩ := hd
      cases o <;> exact takesKey_of_keyring rfl rfl rfl
    · cases o with
      | root => cases hd
      | signed who => exact dispatchSigned_takesKey hu hd
  | execute act =>
    cases act with
    | registerJob hj reg =>
      refine takesKey_of_none ?_ rfl rfl
      rw [registerFor_keyring h]
      exact .register (hu.2 _ rfl)
    | deregisterJob hj => exact takesKey_of_none (deregisterFor_keyStep h) rfl rfl
    | setJobEnvironment hj envs =>
      have hs : Staffs none s s' := setEnvironmentFor_staffs h
      exact takesKey_of_keyring hs.keyring rfl rfl
  | timestamp now =>
    cases h
    exact takesKey_of_keyring rfl rfl rfl
  | outside world =>
    cases h
    exact takesKey_of_keyring rfl rfl rfl

def givenKeys (T : Config A) (world : T.World) (ops : List (Op T)) : JobId A → Option KeyId :=
  recordRun step (fun given s op => noteKeys given (step s op).keyring) (State.genesis T world)
    (fun _ => none) ops

theorem genesis_keyed (T : Config A) (w : T.World) :
    Keyed T (fun _ => none) (State.genesis T w).keyring := by
  refine ⟨fun _ _ hm => ?_, fun _ _ _ _ hm => ?_, fun _ _ hk => ?_⟩
  · cases hm
  · cases hm
  · cases hk

theorem step_keyed (hu : Unshared s op) (h : Keyed T given s.keyring) :
    Keyed T (noteKeys given (step s op).keyring) (step s op).keyring := by
  refine transact_induction (P := fun s' : State T => Keyed T (noteKeys given s'.keyring) s'.keyring)
    h.noteKeys fun s' hs' => ?_
  obtain ⟨moved, hs, -, -⟩ := perform_takesKey hu hs'
  exact hs.keyed h

theorem keyed_of_run (w : T.World) {ops : List (Op T)}
    (hr : Along step Unshared (State.genesis T w) ops) :
    Keyed T (givenKeys T w ops) (run step (State.genesis T w) ops).keyring := by
  have hk : ∀ (s : State T) (given : JobId A → Option KeyId) (op : Op T), Unshared s op →
      Keyed T given s.keyring → Keyed T (noteKeys given (step s op).keyring) (step s op).keyring :=
    fun s given op ho h => step_keyed ho h
  exact recordRun_invariant hk hr (genesis_keyed T w)

/-- In every run, the key id that an edit or a reuse of keys moves is the one that the job was given, and
no operation takes another one from its hash. -/
theorem keys_follow_jobs (T : Config A) (world : T.World) (ops : List (Op T)) (op : Op T)
    (hrun : Along step Unshared (State.genesis T world) ops)
    (hop : Unshared (reached world ops) op)
    (hok : (perform (reached world ops) op).isOk = true) :
    (∀ j, op.keySource = some j → ∃ key,
      movedKey (reached world ops) op = some key ∧
        givenKeys T world ops j = some key) ∧
    ∀ hash key, (reached world ops).deploymentKeyIds.lookup hash = some key →
      (step (reached world ops) op).deploymentKeyIds.lookup hash ≠ some key →
        ∃ j, op.keySource = some j ∧ givenKeys T world ops j = some key := by
  have hk := keyed_of_run world hrun
  obtain ⟨s', hs'⟩ := isOk_iff.mp hok
  obtain ⟨moved, hs, ho, hm⟩ := perform_takesKey hop hs'
  have ha : step (reached world ops) op = s' := by
    rw [step, hs']
    rfl
  refine ⟨fun j hj => ?_, fun hash key hb hg => ?_⟩
  · rw [ho] at hj
    obtain ⟨⟨j', key⟩, rfl, rfl⟩ := Option.map_eq_some_iff.mp hj
    exact ⟨key, hm, hk.moved hs⟩
  · rw [ha] at hg
    obtain ⟨j, rfl⟩ := hs.leaves hb hg
    exact ⟨j, ho, hk.moved hs⟩

def hashing : Config ℕ :=
  { mock with
    deploymentHash := fun owner script => match owner with
      | .acurast who => BitVec.ofNat 256 (script.foldl (fun n byte => 256 * n + byte.toNat + 1) (who + 1))
      | _ => 0
    keyIdHash := fun j => BitVec.ofNat 256 (1000 + j.2) }

def deployed (n : UInt8) (editor : ℕ) (reuseKeysFrom : Option (JobId ℕ)) : Op hashing :=
  .dispatch (.signed 1) (.deploy { plainJob atThousand (.single none) 40 with script := scriptOf n }
    (.mutable (some editor)) reuseKeysFrom none)

def editedJob : List (Op hashing) :=
  [deployed 0 7 none, .dispatch (.signed 7) (.editScript (mockJob 1) (scriptOf 1))]

theorem keys_follow_jobs_of_editedJob : ∃ key,
    movedKey (run step (State.genesis hashing (1 : ℕ)) editedJob) (deployed 1 7 (some (mockJob 1))) =
        some key ∧
      givenKeys hashing (1 : ℕ) editedJob (mockJob 1) = some key :=
  (keys_follow_jobs hashing (1 : ℕ) editedJob (deployed 1 7 (some (mockJob 1))) (by decide +kernel)
    (by decide +kernel) (by decide +kernel)).1 (mockJob 1) rfl

def twins : List (Op hashing) := [deployed 0 7 none, deployed 0 8 none]

/-- The editor of the first job moves the key id of the second one. -/
theorem key_taken_of_twins : ∃ key₁ key₂, givenKeys hashing (1 : ℕ) twins (mockJob 1) = some key₁ ∧
      givenKeys hashing (1 : ℕ) twins (mockJob 2) = some key₂ ∧ key₁ ≠ key₂ ∧
      (perform (run step (State.genesis hashing (1 : ℕ)) twins)
        (.dispatch (.signed 7) (.editScript (mockJob 1) (scriptOf 1)))).isOk = true ∧
      movedKey (run step (State.genesis hashing (1 : ℕ)) twins)
        (.dispatch (.signed 7) (.editScript (mockJob 1) (scriptOf 1))) = some key₂ :=
  ⟨BitVec.ofNat 256 1001, BitVec.ofNat 256 1002, by decide +kernel, by decide +kernel, by decide +kernel,
    by decide +kernel, by decide +kernel⟩

end Acurast.Marketplace
