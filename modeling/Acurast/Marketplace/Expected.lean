import Acurast.Marketplace.Staffing
import Acurast.Marketplace.Turns

/-! The reports that the storage expects of the processors, against the turns that were taken. Only a
report and an acknowledgement change what is expected for the registered jobs. -/

namespace Acurast.Marketplace

open Base

variable {A : Type} {T : Config A} [DecidableEq A] {good : Book A → Deed A → Prop} {g : Turns A}
  {b b' : Book A} {s s' s₁ s₂ : State T} {p : A} {j : JobId A} {registration reg : JobRegistration A}

theorem Deal.registers (h : Deal T good b b') :
    (registeredIds b'.history = registeredIds b.history ∧
      ∀ j r', b'.registrations.lookup j = some r' →
        ∃ r, b.registrations.lookup j = some r ∧ r'.extra = r.extra) ∨
    ∃ j, registeredIds b'.history = j :: registeredIds b.history ∧
      ∀ j' r', b'.registrations.lookup j' = some r' → j' = j ∨ b.registrations.lookup j' = some r' := by
  have hsa : ∀ b₁ : Book A, b₁.registrations = b.registrations → ∀ j r',
      b₁.registrations.lookup j = some r' →
        ∃ r, b.registrations.lookup j = some r ∧ r'.extra = r.extra :=
    fun b₁ hre j r' hr' => ⟨r', hre ▸ hr', rfl⟩
  cases h with
  | tick | reopen | drop | rekey => exact .inl ⟨rfl, hsa _ rfl⟩
  | revise hf sched hx =>
    refine .inl ⟨rfl, fun j' r' hr' => ?_⟩
    simp only [lookup_insert_eq] at hr'
    split_ifs at hr' with hj
    · rw [hj, ← Option.some.inj hr']
      exact ⟨_, hf, hx⟩
    · exact ⟨r', hr', rfl⟩
  | @register b₁ j reg st hg his hop ho hin =>
    have hfi : b₁.history = .registered j reg :: b.history ∧
        b₁.registrations = b.registrations.insert j reg := by
      rcases hin with rfl | ⟨-, -, ha⟩
      · exact ⟨rfl, rfl⟩
      · exact ⟨ha.fixed.2.2.2.2.2.2, ha.fixed.1⟩
    refine .inr ⟨j, congrArg registeredIds hfi.1, fun j' r' hr' => ?_⟩
    have hl : b₁.registrations.lookup j' = some r' := hr'
    rw [hfi.2, lookup_insert_eq] at hl
    split_ifs at hl with hj
    · exact .inl hj
    · exact .inr hl
  | matchAll hf hm =>
    obtain ⟨-, -, ha⟩ := hm
    exact .inl ⟨congrArg registeredIds ha.fixed.2.2.2.2.2.2, hsa _ ha.fixed.1⟩
  | matchExecution hf his hs hea hsl ha =>
    exact .inl ⟨congrArg registeredIds ha.fixed.2.2.2.2.2.2, hsa _ ha.fixed.1⟩
  | acknowledge hr hf hu ht st hrep hn pay hp =>
    have hh := st.fixed.2.2.2.2
    exact .inl ⟨pay.registeredIds.trans (congrArg registeredIds hh),
      hsa _ (pay.fixed.1.trans st.fixed.1)⟩
  | report reps hn pay => exact .inl ⟨pay.registeredIds, hsa _ pay.fixed.1⟩
  | reportLast reps hn pay => exact .inl ⟨pay.registeredIds, hsa _ pay.fixed.1⟩
  | release fair hr pay hp =>
    exact .inl ⟨pay.registeredIds, hsa _ pay.fixed.1⟩
  | deregister hd hex ho =>
    refine .inl ⟨rfl, fun j' r' hr' => ?_⟩
    exact ⟨r', (of_lookup_erase hr').2, rfl⟩

theorem Deal.suffix (h : Deal T good b b') : registeredIds b.history <:+ registeredIds b'.history := by
  rcases h.registers with ⟨hd, -⟩ | ⟨j, hd, -⟩
  · rw [hd]
  · rw [hd]
    exact List.suffix_cons j _

theorem Deals.registers (h : Deals T good b b') :
    registeredIds b.history <:+ registeredIds b'.history ∧
      ∀ j r', b'.registrations.lookup j = some r' →
        (∃ r, b.registrations.lookup j = some r ∧ r'.extra = r.extra) ∨
          ((registeredIds b'.history).Nodup → j ∉ registeredIds b.history) := by
  induction h with
  | refl => exact ⟨List.suffix_rfl, fun j r hr => .inl ⟨r, hr, rfl⟩⟩
  | @tail b₁ b₂ _ hl ih =>
    obtain ⟨hs, hold⟩ := ih
    refine ⟨hs.trans hl.suffix, fun j r' hr' => ?_⟩
    have ho : (registeredIds b₂.history).Nodup → (registeredIds b₁.history).Nodup :=
      fun h => h.sublist hl.suffix.sublist
    rcases hl.registers with ⟨hd, hk⟩ | ⟨j₁, hd, hk⟩
    · obtain ⟨r, hr, hx⟩ := hk j r' hr'
      rcases hold j r hr with ⟨r₀, hr₀, he₀⟩ | hn
      · exact .inl ⟨r₀, hr₀, hx.trans he₀⟩
      · exact .inr fun h => hn (ho h)
    · rcases hk j r' hr' with rfl | hr
      · refine .inr fun h hm => ?_
        rw [hd, List.nodup_cons] at h
        exact h.1 (hs.subset hm)
      · rcases hold j r' hr with hb | hn
        · exact .inl hb
        · exact .inr fun h => hn (ho h)

theorem Deals.traced (h : Deals T Fitting b b')
    (hl : T.matchingCompetingDueDelta ≤ 2 * T.matchingCompetingMinInterval) (hin : Indexed T b)
    (ho : (registeredIds b'.history).Nodup) (hb : Traced g b) : Traced g b' := by
  have hd : ∀ b₁ b₂, Deal T Fitting b₁ b₂ →
      Indexed T b₁ ∧ ((registeredIds b₁.history).Nodup → Traced g b₁) →
      Indexed T b₂ ∧ ((registeredIds b₂.history).Nodup → Traced g b₂) := by
    intro b₁ b₂ hd hb₁
    exact ⟨hd.indexed hb₁.1, fun hn => hd.traced hl hb₁.1 hn (hb₁.2 (hn.sublist hd.suffix.sublist))⟩
  exact (Deals.invariant hd h ⟨hin, fun _ => hb⟩).2 ho

/-- What is noted as the next report of a processor, and the assignments it can report for, are turns that
it has acknowledged and not taken yet. -/
structure Expected (g : Turns A) (b : Book A) : Prop where
  known : ∀ j p n, b.reports.lookup (j, p) = some n → j ∈ registeredIds b.history
  next : ∀ j p n registration, b.registrations.lookup j = some registration →
    registration.extra.assignmentStrategy = .competing → b.reports.lookup (j, p) = some n →
    (p, j, n) ∈ g.acknowledged ∧ (p, j, n) ∉ g.booked
  index : ∀ p j a i, b.assignments.lookup (p, j) = some a → a.acknowledged = true →
    a.execution = .index i → (p, j, i) ∈ g.acknowledged ∧ (p, j, i) ∉ g.booked
  all : ∀ p j a, b.assignments.lookup (p, j) = some a → a.acknowledged = true → a.execution = .all →
    ∃ n, b.reports.lookup (j, p) = some n ∧ ∀ i, (p, j, i) ∈ g.booked → i < n

structure Calm (b b' : Book A) : Prop where
  acknowledged : ∀ k a, b'.assignments.lookup k = some a → a.acknowledged = true →
    b.assignments.lookup k = some a
  kept : ∀ k n, b'.reports.lookup k = some n → b.reports.lookup k = some n
  reports : ∀ j p registration, b'.registrations.lookup j = some registration →
    b'.reports.lookup (j, p) = b.reports.lookup (j, p)

theorem Calm.expected (h : Calm b b') (hd : Deals T good b b') (hin : Indexed T b')
    (ho : (registeredIds b'.history).Nodup) (hb : Expected g b) : Expected g b' := by
  obtain ⟨hs, hg⟩ := hd.registers
  constructor
  · exact fun j p n hn => hs.subset (hb.known j p n (h.kept (j, p) n hn))
  · intro j p n r' hr' hco hn
    have hbe := h.kept (j, p) n hn
    rcases hg j r' hr' with ⟨r, hr, hx⟩ | hw
    · exact hb.next j p n r hr (hx ▸ hco) hbe
    · exact absurd (hb.known j p n hbe) (hw ho)
  · exact fun p j a i ha hc =>
      hb.index p j a i (h.acknowledged (p, j) a ha hc) hc
  · intro p j a ha hc hl
    obtain ⟨n, hn, ht⟩ := hb.all p j a (h.acknowledged (p, j) a ha hc) hc hl
    obtain ⟨reg, hre⟩ := hin.registered p j a ha
    exact ⟨n, (h.reports j p reg hre).trans hn, ht⟩

structure Quiet (s s' : State T) : Prop where
  acknowledged : ∀ k a, s'.storedMatches.lookup k = some a → a.acknowledged = true →
    s.storedMatches.lookup k = some a
  reports : s'.nextReportIndex = s.nextReportIndex

namespace Quiet

theorem of_book (h : s'.book = b) (hm : b.assignments = s.storedMatches)
    (hr : b.reports = s.nextReportIndex) : Quiet s s' := by
  have hm' : s'.storedMatches = s.storedMatches := (congrArg Book.assignments h).trans hm
  refine ⟨fun k a ha _ => ?_, (congrArg Book.reports h).trans hr⟩
  rwa [hm'] at ha

theorem of_staffs {matcher : Option A} (h : Staffs matcher s s') : Quiet s s' :=
  ⟨h.acknowledged, congrArg Office.reports h.office⟩

theorem trans (h : Quiet s s₁) (h' : Quiet s₁ s₂) : Quiet s s₂ :=
  ⟨fun k a ha hc => h.acknowledged k a (h'.acknowledged k a ha hc) hc,
    h'.reports.trans h.reports⟩

theorem calm (h : Quiet s s') : Calm s.book s'.book := by
  have hr : s'.book.reports = s.book.reports := h.reports
  refine ⟨h.acknowledged, fun k n hn => ?_, fun j p reg _ => ?_⟩
  · rwa [hr] at hn
  · rw [hr]

end Quiet

theorem registerFor_quiet {mins : Option (List (PoolId × ℕ × ℕ))}
    (h : registerFor s j reg mins = .ok s') : Quiet s s' := by
  simp only [registerFor, registerHook, bind_eq_ok] at h
  obtain ⟨s₁, hs, s₂, hd, s₃, hm, r, -, hl⟩ := h
  have ha : Staffs none s₁ s₂ := admitJob_staffs hd
  have hb : Quiet s s₁ := .of_book (storeRegistration_book hs) rfl rfl
  have hf : Quiet s₃ s' := .of_book (lockReward_book hl) rfl rfl
  exact ((hb.trans (.of_staffs ha)).trans (.of_staffs (matchInstantly_staffs hm))).trans hf

theorem releaseProcessor_quiet {now : ℕ} (h : releaseProcessor j reg now s p = .ok s') :
    Quiet s s' := by
  have hr : Staffs none s (s.unassign p j) := .unassign s p j
  simp only [releaseProcessor] at h
  rcases whenSome_eq_ok.mp h with ⟨-, rfl⟩ | ⟨a, -, h⟩
  · exact .of_staffs hr
  · split_ifs at h
    · exact (Quiet.of_staffs hr).trans (.of_book (handleReward_pay h).2 rfl rfl)
    · rw [← pure_eq_ok.mp h]
      exact .of_staffs hr

theorem finalizeJob_quiet (h : finalizeJob s j = .ok s') : Quiet s s' :=
  .of_book (finalizeJob_book h) rfl rfl

theorem deregisterFor_calm (h : deregisterFor s j = .ok s') : Calm s.book s'.book := by
  simp only [deregisterFor, deregisterHook, ok_iff] at h
  obtain ⟨s₁, ⟨st, -, reg, -, h⟩, rfl⟩ := h
  cases st with
  | opened =>
    simp only [ok_iff] at h
    obtain ⟨s₂, hf, rfl⟩ := h
    have hq := finalizeJob_quiet hf
    exact Quiet.calm ⟨hq.acknowledged, hq.reports⟩
  | matched =>
    simp only [ok_iff] at h
    obtain ⟨s₂, hf, rfl⟩ := h
    have hre : Staffs none s₂ (s₂.unassignAll j (s₂.processorsOf j)) := unassignAll_staffs s₂ j _
    have hq := (finalizeJob_quiet hf).trans (.of_staffs hre)
    exact Quiet.calm ⟨hq.acknowledged, hq.reports⟩
  | assigned count =>
    simp only [ok_iff] at h
    obtain ⟨now, -, s₂, hrel, s₃, hf, rfl⟩ := h
    have hre : Quiet s s₂ := by
      refine foldlM_invariant (P := fun s' : State T => Quiet s s') ?_ hrel ⟨fun _ _ ha _ => ha, rfl⟩
      exact fun s₁ p s₂ ht hs => hs.trans (releaseProcessor_quiet ht)
    have hq := hre.trans (finalizeJob_quiet hf)
    -- the reports of the job are cleared, but it is no longer registered
    refine ⟨hq.acknowledged, fun k n hn => ?_, fun j' p r hr => ?_⟩
    · have hb : s₃.nextReportIndex.lookup k = some n := lookup_of_clearPrefixLimit hn
      rwa [hq.reports] at hb
    · have hne : j' ≠ j := by
        rintro rfl
        have hl : (s₃.storedJobRegistration.erase j').lookup j' = some r := hr
        rw [AList.lookup_erase] at hl
        cases hl
      show (clearPrefixLimit s₃.nextReportIndex j T.maxSlots).lookup (j', p) = _
      rw [lookup_clearPrefixLimit_ne hne, hq.reports]
      rfl

theorem updateAllowedSources_quiet {seq : ℕ} {ups : List (ListUpdateOperation × A)}
    (h : updateAllowedSources s p seq ups = .ok s') : Quiet s s' := by
  obtain ⟨reg, sources, -, -, rfl⟩ := updateAllowedSources_ok h
  exact .of_book rfl rfl rfl

theorem editScript_quiet {script : Script} (h : editScript s p j script = .ok s') : Quiet s s' := by
  simp only [editScript, transferKeyId, ok_iff, Prod.exists, Prod.mk.injEq] at h
  obtain ⟨_, -, ⟨⟩, -, ⟨⟩, -, _, -, _, _, ⟨_, -, rfl, -⟩, rfl⟩ := h
  exact .of_book rfl rfl rfl

theorem dispatchSigned_calm {call : Call A} (h : dispatchSigned s p call = .ok s')
    (hp : ∀ j, call ≠ .report j) (hm : ∀ j pubKeys, call ≠ .acknowledgeMatch j pubKeys)
    (hx : ∀ j i pubKeys, call ≠ .acknowledgeExecutionMatch j i pubKeys) :
    Calm s.book s'.book := by
  have staffs : Staffs (some p) s s' → Calm s.book s'.book := fun h => (Quiet.of_staffs h).calm
  cases call with
  | register reg minMetrics =>
    have hr := registerFor_quiet h
    have hq : Quiet s s' := ⟨hr.acknowledged, hr.reports⟩
    exact hq.calm
  | deregister sequence => exact deregisterFor_calm h
  | updateAllowedSources sequence updates => exact (updateAllowedSources_quiet h).calm
  | setEnvironments sequence environments => exact staffs (setEnvironmentFor_staffs h)
  | advertise advertisement => exact staffs (doAdvertise_staffs h)
  | deleteAdvertisement => exact staffs (deleteAdvertisement_staffs h)
  | proposeMatching matching => exact staffs (processMatching_staffs h)
  | proposeExecutionMatching matching => exact staffs (processExecutionMatching_staffs h)
  | acknowledgeMatch jobId pubKeys => exact absurd rfl (hm jobId pubKeys)
  | acknowledgeExecutionMatch jobId i pubKeys => exact absurd rfl (hx jobId i pubKeys)
  | report jobId => exact absurd rfl (hp jobId)
  | finalizeJob jobId => exact staffs (doCleanupAssignments_staffs h)
  | cleanupStorage jobId maxIterations => cases h
  | cleanupAssignments jobIds => exact staffs (doCleanupAssignments_staffs h)
  | cleanupAssignmentsFor processor jobIds => exact staffs (doCleanupAssignments_staffs h)
  | cleanupJobAssignments jobId => exact staffs (cleanupJobAssignments_staffs h)
  | cleanupJobMatcher jobId => exact staffs (cleanupJobMatcher_staffs h)
  | deploy reg mutability reuseKeysFrom minMetrics =>
    simp only [dispatchSigned, deploy, bind_eq_ok] at h
    obtain ⟨⟨s₁, j⟩, hpre, hg⟩ := h
    have hpr : Quiet s s₁ := .of_book (prepareDeployment_book hpre) rfl rfl
    exact (hpr.trans (registerFor_quiet hg)).calm
  | editScript jobId script => exact (editScript_quiet h).calm
  | transferEditor jobId newEditor =>
    have hq : Quiet s s' := .of_book (transferEditor_book h) rfl rfl
    exact hq.calm
  | updatePriceSettings settings => cases h

end Acurast.Marketplace
