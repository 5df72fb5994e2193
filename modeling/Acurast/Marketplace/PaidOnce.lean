import Acurast.Marketplace.Expected
import Acurast.Marketplace.Timely

/-! No execution is booked twice for a processor, and one of a competing job only after its processor
acknowledged it, as long as every report of such a job comes in turn. A late report is booked for the
current execution instead. -/

namespace Acurast.Marketplace

open Base

theorem AssignmentStrategy.competing_of_allows {strategy : AssignmentStrategy A}
    (h : strategy.allows (.index i) = true) : strategy = .competing := by
  cases strategy with
  | single instantMatch => cases h
  | competing => rfl

theorem nextExpectedReport_index {n : ℕ} (ha : a.execution = .index n)
    (h : nextExpectedReport a i ≠ none) : n ≠ i ∧ nextExpectedReport a i = some n := by
  unfold nextExpectedReport at h ⊢
  rw [ha] at h ⊢
  dsimp only at h ⊢
  split_ifs at h ⊢ with hn
  · exact ⟨fun hq => hn hq.symm, rfl⟩
  · exact absurd rfl h

theorem nextExpectedReport_all (ha : a.execution = .all) (h : nextExpectedReport a i ≠ none) :
    nextExpectedReport a i = some (i + 1) := by
  unfold nextExpectedReport at h ⊢
  rw [ha] at h ⊢
  split_ifs at h ⊢
  · rfl
  · exact absurd rfl h

variable {A : Type} {T : Config A} [DecidableEq A] {g : Turns A} {b b' : Book A} {s s' : State T} {p : A}
  {j : JobId A} {registration reg : JobRegistration A} {a : Assignment} {i : ℕ}

@[simp]
theorem lookup_setOrRemove {K V : Type} [DecidableEq K] (m : StorageMap K V) (k k' : K) (v : Option V) :
    (setOrRemove m k v).lookup k' = if k' = k then v else m.lookup k' := by
  cases v with
  | none => exact lookup_erase_eq m k k'
  | some v => exact lookup_insert_eq m k k' v

structure Reported (s s' : State T) (p : A) (j : JobId A) (registration : JobRegistration A)
    (a : Assignment) (i : ℕ) : Prop where
  registered : s.storedJobRegistration.lookup j = some registration
  found : s.storedMatches.lookup (p, j) = some a
  acknowledged : a.acknowledged = true
  expected_le : ∀ n, s.nextReportIndex.lookup (j, p) = some n → n ≤ i
  reports : ∀ k, s'.nextReportIndex.lookup k =
    if k = (j, p) then nextExpectedReport a i else s.nextReportIndex.lookup k
  assignments : ∀ k a', s'.storedMatches.lookup k = some a' →
    if k = (p, j) then a'.acknowledged = true ∧ a'.execution = a.execution ∧
      nextExpectedReport a i ≠ none
    else s.storedMatches.lookup k = some a'
  registrations : s'.storedJobRegistration = s.storedJobRegistration
  status : s'.storedJobStatus = s.storedJobStatus
  ids : registeredIds s'.history = registeredIds s.history

theorem doReport_reported (h : doReport s j p = .ok s') :
    ∃ reg a i, s.bookedFor j p = some i ∧ Reported s s' p j reg a i := by
  obtain ⟨reg, a, i, missing, hre, hf, ha, -, ho, hfor⟩ :=
    doReport_booked h
  refine ⟨reg, a, i, hfor, ?_⟩
  simp only [doReport, ok_iff, Prod.exists] at h
  obtain ⟨s₁, a', hu, registration', hr', s₂, missing', value, hne, s₃, hw, s₄, hp, rfl⟩ := h
  obtain ⟨a₀, hf₀, -, -, rfl, rfl⟩ := updateAssignment_ok hu
  obtain rfl := Option.mem_unique hf hf₀
  obtain rfl : reg = registration' :=
    Option.mem_unique hre hr'
  simp only [updateNextReportIndexOnReport, ok_iff, Prod.mk.injEq, Prod.exists] at hne
  obtain ⟨now, hno, ⟨⟩, hl, reported, missing₁, hb₁, rfl, -, rfl⟩ := hne
  obtain rfl := now_eq_ok hno
  obtain ⟨rfl, -⟩ : i = reported ∧ missing = missing₁ :=
    Prod.mk.inj (Except.ok.inj (ho.symm.trans hb₁))
  have hb := (doUpdateReputation_book hp).trans (handleReward_pay hw).2
  have hm : s₄.storedMatches = s.storedMatches.insert (p, j)
      { a with sla := { a.sla with met := a.sla.met + 1 } } := congrArg Book.assignments hb
  have hr : s₄.nextReportIndex =
      setOrRemove s.nextReportIndex (j, p) (nextExpectedReport a i) := congrArg Book.reports hb
  have hg : s₄.storedJobRegistration = s.storedJobRegistration :=
    congrArg Book.registrations hb
  have hs : s₄.storedJobStatus = s.storedJobStatus := congrArg Book.status hb
  have hd : registeredIds s₄.history = registeredIds s.history :=
    congrArg (fun b : Book A => registeredIds b.history) hb
  refine ⟨hre, hf, ha, fun n hn => ?_, fun k => ?_, fun k a' ha' => ?_, ?_, ?_, ?_⟩
  · have hx := le_bookedExecution hb₁ hl
    rwa [hn, Option.getD_some] at hx
  · have hlo : (setOrRemove s.nextReportIndex (j, p) (nextExpectedReport a i)).lookup k =
        if k = (j, p) then nextExpectedReport a i else s.nextReportIndex.lookup k :=
      lookup_setOrRemove s.nextReportIndex (j, p) k _
    rw [← hlo, ← hr]
    split_ifs <;> rfl
  · split_ifs at ha' with hv
    · simp only [State.unassign, lookup_erase_eq, hm, lookup_insert_eq] at ha'
      split_ifs at ha' ⊢
      exact ha'
    · rw [hm, lookup_insert_eq] at ha'
      split_ifs at ha' ⊢
      · rw [← Option.some.inj ha']
        exact ⟨ha, rfl, hv⟩
      · exact ha'
  · split_ifs <;> exact hg
  · split_ifs <;> exact hs
  · split_ifs <;> exact hd

def Turns.report (g : Turns A) (turn : Turn A) (competing : Bool) : Turns A :=
  { g with
    booked := turn :: g.booked
    competing := if competing = true then turn :: g.competing else g.competing }

def Turns.acknowledge (g : Turns A) (turn : Turn A) : Turns A :=
  { g with acknowledged := g.acknowledged.insert turn }

structure Turned (g : Turns A) (s : State T) : Prop where
  orderly : Orderly T s.book
  traced : Traced g s.book
  expected : Expected g s.book
  distinct : g.booked.Nodup
  competing : ∀ turn ∈ g.competing, turn ∈ g.acknowledged

namespace Reported

theorem fresh (h : Reported s s' p j reg a i) (hs : Turned g s)
    (ht : ∀ n, a.execution = .index n → i = n ∨ s.nextReportIndex.lookup (j, p) = some i) :
    (p, j, i) ∉ g.booked ∧
      (reg.extra.assignmentStrategy = .competing → (p, j, i) ∈ g.acknowledged) := by
  have ha := hs.orderly.allowed p j a reg h.found h.registered
  cases hx : a.execution with
  | all =>
    obtain ⟨n, hn, hl⟩ := hs.expected.all p j a h.found h.acknowledged hx
    refine ⟨fun ho => ?_, fun hc => ?_⟩
    · exact absurd (hl i ho) (Nat.not_lt.mpr (h.expected_le n hn))
    · rw [hx, hc] at ha
      cases ha
  | index n =>
    rw [hx] at ha
    have hc := AssignmentStrategy.competing_of_allows ha
    have hb : (p, j, i) ∈ g.acknowledged ∧ (p, j, i) ∉ g.booked := by
      rcases ht n hx with rfl | hne
      · exact hs.expected.index p j a i h.found h.acknowledged hx
      · exact hs.expected.next j p i reg h.registered hc hne
    exact ⟨hb.2, fun _ => hb.1⟩

variable {flag : Bool}

theorem traced (h : Reported s s' p j reg a i) (hs : Turned g s)
    (htr : Traced g s'.book)
    (hac : reg.extra.assignmentStrategy = .competing → (p, j, i) ∈
      g.acknowledged) : Traced (g.report (p, j, i) flag) s'.book := by
  have hre : s'.storedJobRegistration.lookup j = some reg := by
    rw [h.registrations]
    exact h.registered
  constructor
  · exact htr.registered
  · intro p' j' n ht
    simp only [Turns.report, List.mem_cons, Prod.mk.injEq] at ht
    rcases ht with (⟨-, rfl, -⟩ | ht) | ht
    · exact htr.registered j' reg hre
    · exact htr.known p' j' n (.inl ht)
    · exact htr.known p' j' n (.inr ht)
  · intro p' j' n ho ht
    simp only [Turns.report, List.mem_cons, Prod.mk.injEq] at ht
    rcases ht with (⟨-, rfl, -⟩ | ht) | ht
    · -- an open job has no assignments to report for
      have hb : s.storedJobStatus.lookup j' = some .opened := by
        rw [← h.status]
        exact ho
      have hn : s.storedMatches.lookup (p, j') = none := hs.orderly.indexed.opened p j' hb
      rw [h.found] at hn
      cases hn
    · exact htr.opened p' j' n ho (.inl ht)
    · exact htr.opened p' j' n ho (.inr ht)
  · exact htr.strategy
  · intro p' j' n r ht hr hc
    rcases List.mem_cons.mp ht with hq | ht
    · obtain ⟨rfl, hres⟩ := Prod.mk.inj hq
      obtain ⟨rfl, rfl⟩ := Prod.mk.inj hres
      obtain rfl : reg = r := Option.mem_unique hre hr
      exact hac hc
    · exact htr.covered p' j' n r ht hr hc
  · exact htr.started
  · intro p' j' a' n ha' hu hl ht
    rcases List.mem_cons.mp ht with hq | ht
    · obtain ⟨rfl, hres⟩ := Prod.mk.inj hq
      obtain ⟨rfl, rfl⟩ := Prod.mk.inj hres
      have ha := h.assignments (p', j') a' ha'
      rw [if_pos rfl, hu] at ha
      cases ha.1
    · exact htr.freshAll p' j' a' n ha' hu hl ht
  · exact htr.freshIndex

theorem expected (h : Reported s s' p j reg a i) (hs : Turned g s) :
    Expected (g.report (p, j, i) flag) s'.book := by
  have hre : s'.book.registrations = s.book.registrations := h.registrations
  have hd : registeredIds s'.book.history = registeredIds s.book.history := h.ids
  have hal := hs.orderly.allowed p j a reg h.found h.registered
  -- the turn of another processor or job is not the one that was taken
  have ht : ∀ p' j' n, (j', p') ≠ (j, p) → (p', j', n) ∉ g.booked →
      (p', j', n) ∉ (g.report (p, j, i) flag).booked := by
    intro p' j' n hne ho hm
    rcases List.mem_cons.mp hm with hq | hm
    · obtain ⟨rfl, hres⟩ := Prod.mk.inj hq
      exact hne (by rw [(Prod.mk.inj hres).1])
    · exact ho hm
  -- nor is another execution
  have hin : ∀ n, a.execution = .index n → n ≠ i →
      (p, j, n) ∈ g.acknowledged ∧ (p, j, n) ∉ (g.report (p, j, i) flag).booked := by
    intro n hn hne
    obtain ⟨ha, ho⟩ := hs.expected.index p j a n h.found h.acknowledged hn
    refine ⟨ha, fun hm => ?_⟩
    rcases List.mem_cons.mp hm with hq | hm
    · exact hne (Prod.mk.inj (Prod.mk.inj hq).2).2
    · exact ho hm
  refine ⟨fun j' p' n hn => ?_, fun j' p' n r hr hc hn => ?_,
    fun p' j' a' n ha' ha hn => ?_, fun p' j' a' ha' ha hall => ?_⟩
  · rw [hd]
    have hl := h.reports (j', p')
    have hn' : s'.nextReportIndex.lookup (j', p') = some n := hn
    rw [hn'] at hl
    split_ifs at hl with hk
    · obtain ⟨rfl, rfl⟩ := Prod.mk.inj hk
      exact hs.traced.registered j' reg h.registered
    · exact hs.expected.known j' p' n hl.symm
  · rw [hre] at hr
    have hl := h.reports (j', p')
    have hn' : s'.nextReportIndex.lookup (j', p') = some n := hn
    rw [hn'] at hl
    split_ifs at hl with hk
    · obtain ⟨rfl, rfl⟩ := Prod.mk.inj hk
      obtain rfl : reg = r := Option.mem_unique h.registered hr
      cases hx : a.execution with
      | all =>
        rw [hx, hc] at hal
        cases hal
      | index m =>
        have hso : nextExpectedReport a i ≠ none := by
          rw [← hl]
          simp
        obtain ⟨hne, hnex⟩ := nextExpectedReport_index hx hso
        obtain rfl := Option.some.inj (hl.trans hnex)
        exact hin n hx hne
    · obtain ⟨ha, ho⟩ := hs.expected.next j' p' n r hr hc hl.symm
      exact ⟨ha, ht p' j' n hk ho⟩
  · have hf := h.assignments (p', j') a' ha'
    split_ifs at hf with hk
    · obtain ⟨rfl, rfl⟩ := Prod.mk.inj hk
      obtain ⟨-, hx, hso⟩ := hf
      rw [hx] at hn
      exact hin n hn (nextExpectedReport_index hn hso).1
    · obtain ⟨hm, ho⟩ := hs.expected.index p' j' a' n hf ha hn
      refine ⟨hm, ht p' j' n (fun hq => hk ?_) ho⟩
      rw [(Prod.mk.inj hq).1, (Prod.mk.inj hq).2]
  · have hf := h.assignments (p', j') a' ha'
    split_ifs at hf with hk
    · obtain ⟨rfl, rfl⟩ := Prod.mk.inj hk
      obtain ⟨-, hx, hso⟩ := hf
      rw [hx] at hall
      refine ⟨i + 1, ?_, fun n hm => ?_⟩
      · show s'.nextReportIndex.lookup (j', p') = _
        rw [h.reports, if_pos rfl, nextExpectedReport_all hall hso]
      · obtain ⟨next, hnex, hlt⟩ := hs.expected.all p' j' a h.found h.acknowledged hall
        have hle := h.expected_le next hnex
        rcases List.mem_cons.mp hm with hq | hm
        · rw [(Prod.mk.inj (Prod.mk.inj hq).2).2]
          exact Nat.lt_succ_self i
        · exact (hlt n hm).trans_le (hle.trans (Nat.le_succ i))
    · have hk' : (j', p') ≠ (j, p) := fun hq => hk (by
        rw [(Prod.mk.inj hq).1, (Prod.mk.inj hq).2])
      obtain ⟨next, hnex, hlt⟩ := hs.expected.all p' j' a' hf ha hall
      refine ⟨next, ?_, fun n hm => hlt n ?_⟩
      · show s'.nextReportIndex.lookup (j', p') = _
        rw [h.reports, if_neg hk']
        exact hnex
      · by_contra ho
        exact ht p' j' n hk' ho hm

theorem turned (h : Reported s s' p j reg a i) (hs : Turned g s)
    (ht : ∀ n, a.execution = .index n → i = n ∨ s.nextReportIndex.lookup (j, p) = some i)
    (hf : flag = true → reg.extra.assignmentStrategy = .competing)
    (ho : Orderly T s'.book) (hr : Traced g s'.book) :
    Turned (g.report (p, j, i) flag) s' := by
  obtain ⟨hn, ha⟩ := h.fresh hs ht
  refine ⟨ho, h.traced hs hr ha, h.expected hs, List.nodup_cons.mpr ⟨hn, hs.distinct⟩,
    fun turn hm => ?_⟩
  simp only [Turns.report] at hm
  split_ifs at hm with hc
  · rcases List.mem_cons.mp hm with rfl | hm
    · exact ha (hf hc)
    · exact hs.competing turn hm
  · exact hs.competing turn hm

end Reported

variable {pubKeys keys : List PubKey} {op : Op T}

theorem Expected.rekey (hb : Expected g b) (hf : b.assignments.lookup (p, j) = some a) :
    Expected g { b with assignments := b.assignments.insert (p, j) { a with pubKeys } } := by
  have hbe : ∀ k a', (b.assignments.insert (p, j) { a with pubKeys }).lookup k = some a' →
      ∃ a₀, b.assignments.lookup k = some a₀ ∧ a'.execution = a₀.execution ∧
        a'.acknowledged = a₀.acknowledged := by
    intro k a' ha'
    rw [lookup_insert_eq] at ha'
    split_ifs at ha' with hk
    · rw [hk, ← Option.some.inj ha']
      exact ⟨a, hf, rfl, rfl⟩
    · exact ⟨a', ha', rfl, rfl⟩
  refine ⟨hb.known, hb.next, fun p' j' a' n ha' ha hn => ?_, fun p' j' a' ha' ha hl => ?_⟩
  · obtain ⟨a₀, ha₀, hx, hs⟩ := hbe (p', j') a' ha'
    exact hb.index p' j' a₀ n ha₀ (hs ▸ ha) (hx ▸ hn)
  · obtain ⟨a₀, ha₀, hx, hs⟩ := hbe (p', j') a' ha'
    exact hb.all p' j' a₀ ha₀ (hs ▸ ha) (hx ▸ hl)

theorem Acknowledges.closed (h : Acknowledges j b (.index i) b') : ¬ b'.executionOpen j i := by
  cases h with
  | index ha =>
    unfold Book.executionOpen
    rw [getD_insert, if_pos rfl]
    exact acknowledgedStatus_ne_opened ha

structure Confirmed (b b' : Book A) (p : A) (j : JobId A) (a : Assignment) (next : ℕ) : Prop where
  found : b.assignments.lookup (p, j) = some a
  unacknowledged : a.acknowledged = false
  assignments : ∀ k a', b'.assignments.lookup k = some a' →
    if k = (p, j) then a'.acknowledged = true ∧ a'.execution = a.execution
    else b.assignments.lookup k = some a'
  reports : ∀ k, b'.reports.lookup k = if k = (j, p) then some next else b.reports.lookup k
  registrations : b'.registrations = b.registrations
  ids : registeredIds b'.history = registeredIds b.history
  status : b'.status.lookup j ≠ some .opened
  all : a.execution = .all → next = 0
  index : ∀ i, a.execution = .index i → ¬ b'.executionOpen j i ∧
    (next = i ∨ b.reports.lookup (j, p) = some next)

theorem processAcknowledgeMatch_confirmed {ex : ExecutionSpecifier}
    (h : processAcknowledgeMatch s p j ex pubKeys = .ok s') :
    ∃ reg a, s.book.registrations.lookup j = some reg ∧
      s.book.assignments.lookup (p, j) = some a ∧ a.execution = ex ∧
      (a.acknowledged = true ∧ s'.book = { s.book with
          assignments := s.book.assignments.insert (p, j) { a with pubKeys } } ∨
        ∃ next, Confirmed s.book s'.book p j a next) := by
  obtain ⟨reg, a, hr, hf, rfl, hc⟩ := processAcknowledgeMatch_ok h
  refine ⟨reg, a, hr, hf, rfl, ?_⟩
  rcases hc with hk | ⟨hu, -, b₁, reps, next, paid, ha, ho, hl, hn, hp, -⟩
  · exact .inl hk
  · obtain ⟨hre, hs, has, -, hx, -, hrep⟩ := hp.fixed
    obtain ⟨hr', hs', -, -, hh⟩ := ha.fixed
    refine .inr ⟨next, hf, hu, fun k a' ha' => ?_, ?_,
      hre.trans hr', hp.registeredIds.trans (congrArg registeredIds hh),
      ?_, hl, fun i hi => ⟨?_, hn i hi⟩⟩
    · rw [has.trans hs', lookup_insert_eq] at ha'
      split_ifs at ha' ⊢
      · rw [← Option.some.inj ha']
        exact ⟨rfl, rfl⟩
      · exact ha'
    · rw [hrep]
      exact ho
    · rw [hs]
      exact ha.not_opened
    · rw [hi] at ha
      unfold Book.executionOpen
      rw [hx]
      exact ha.closed

namespace Confirmed

variable {next : ℕ}

theorem expected_others {g' : Turns A} (h : Confirmed b b' p j a next) (hb : Expected g b)
    (hbo : g'.booked = g.booked) (hc : ∀ turn ∈ g.acknowledged, turn ∈ g'.acknowledged)
    (hre : j ∈ registeredIds b.history)
    (hnex : ∀ reg, b.registrations.lookup j = some reg →
      reg.extra.assignmentStrategy = .competing →
      (p, j, next) ∈ g'.acknowledged ∧ (p, j, next) ∉ g.booked)
    (hin : ∀ i, a.execution = .index i → (p, j, i) ∈ g'.acknowledged ∧ (p, j, i) ∉ g.booked)
    (hl : a.execution = .all → ∀ i, (p, j, i) ∈ g.booked → i < next) : Expected g' b' := by
  have hke : ∀ {p' : A} {j' : JobId A}, (p', j') ≠ (p, j) → (j', p') ≠ (j, p) := by
    intro p' j' hne hq
    exact hne (by rw [(Prod.mk.inj hq).1, (Prod.mk.inj hq).2])
  refine ⟨fun j' p' n hn => ?_, fun j' p' n r hr hco hn => ?_,
    fun p' j' a' n ha' hc' hn => ?_, fun p' j' a' ha' hc' hx => ?_⟩
  · rw [h.ids]
    rw [h.reports] at hn
    split_ifs at hn with hk
    · rw [(Prod.mk.inj hk).1]
      exact hre
    · exact hb.known j' p' n hn
  · rw [h.registrations] at hr
    rw [h.reports] at hn
    rw [hbo]
    split_ifs at hn with hk
    · obtain ⟨rfl, rfl⟩ := Prod.mk.inj hk
      obtain rfl := Option.some.inj hn
      exact hnex r hr hco
    · obtain ⟨hm, ho⟩ := hb.next j' p' n r hr hco hn
      exact ⟨hc _ hm, ho⟩
  · have ha := h.assignments (p', j') a' ha'
    rw [hbo]
    split_ifs at ha with hk
    · obtain ⟨rfl, rfl⟩ := Prod.mk.inj hk
      exact hin n (ha.2 ▸ hn)
    · obtain ⟨hm, ho⟩ := hb.index p' j' a' n ha hc' hn
      exact ⟨hc _ hm, ho⟩
  · have ha := h.assignments (p', j') a' ha'
    rw [hbo, h.reports]
    split_ifs at ha with hk
    · obtain ⟨rfl, rfl⟩ := Prod.mk.inj hk
      exact ⟨next, if_pos rfl, hl (ha.2 ▸ hx)⟩
    · rw [if_neg (hke hk)]
      exact hb.all p' j' a' ha hc' hx

theorem turned_all (h : Confirmed s.book s'.book p j a next) (hs : Turned g s)
    (hre : s.book.registrations.lookup j = some reg) (hx : a.execution = .all)
    (ho : Orderly T s'.book) (ht : Traced g s'.book) : Turned g s' := by
  have ha := hs.orderly.allowed p j a reg h.found hre
  refine ⟨ho, ht, ?_, hs.distinct, hs.competing⟩
  refine h.expected_others hs.expected rfl (fun _ => id) (hs.traced.registered j reg hre)
    (fun r hr hc => ?_) (fun i hi => ?_) (fun _ i hb => ?_)
  · obtain rfl := Option.mem_unique hre hr
    rw [hx, hc] at ha
    cases ha
  · rw [hx] at hi
    cases hi
  · exact absurd hb (hs.traced.freshAll p j a i h.found h.unacknowledged hx)

theorem turned_index (h : Confirmed s.book s'.book p j a next) (hs : Turned g s)
    (hre : s.book.registrations.lookup j = some reg)
    (hx : a.execution = .index i) (hor : Orderly T s'.book) (htr : Traced g s'.book) :
    Turned (g.acknowledge (p, j, i)) s' := by
  have hl := hs.orderly.allowed p j a reg h.found hre
  rw [hx] at hl
  have hc := AssignmentStrategy.competing_of_allows hl
  have hg := hs.traced.registered j reg hre
  have hm : ∀ turn, turn ∈ (g.acknowledge (p, j, i)).acknowledged ↔
      turn = (p, j, i) ∨ turn ∈ g.acknowledged := fun turn => List.mem_insert_iff
  have hw : (p, j, i) ∉ g.acknowledged :=
    hs.traced.freshIndex p j a i h.found h.unacknowledged hx
  have ho : (p, j, i) ∉ g.booked :=
    fun hb => hw (hs.traced.covered p j i reg hb hre hc)
  obtain ⟨hcl, hne⟩ := h.index i hx
  refine ⟨hor, ?_, ?_, hs.distinct, fun turn ht => (hm turn).mpr (.inr (hs.competing turn ht))⟩
  · constructor
    · exact htr.registered
    · intro p' j' n ht
      rcases ht with ht | ht
      · exact htr.known p' j' n (.inl ht)
      · rcases (hm _).mp ht with hq | ht
        · rw [h.ids, (Prod.mk.inj (Prod.mk.inj hq).2).1]
          exact hg
        · exact htr.known p' j' n (.inr ht)
    · intro p' j' n hp ht
      rcases ht with ht | ht
      · exact htr.opened p' j' n hp (.inl ht)
      · rcases (hm _).mp ht with hq | ht
        · rw [(Prod.mk.inj (Prod.mk.inj hq).2).1] at hp
          exact h.status hp
        · exact htr.opened p' j' n hp (.inr ht)
    · intro p' j' n r ht hr
      rcases (hm _).mp ht with hq | ht
      · rw [h.registrations, (Prod.mk.inj (Prod.mk.inj hq).2).1] at hr
        obtain rfl := Option.mem_unique hre hr
        exact hc
      · exact htr.strategy p' j' n r ht hr
    · exact fun p' j' n r ht hr hst => (hm _).mpr (.inr (htr.covered p' j' n r ht hr hst))
    · intro p' j' n r start ht hr hope hsta
      rcases (hm _).mp ht with hq | ht
      · obtain ⟨rfl, rfl⟩ := Prod.mk.inj (Prod.mk.inj hq).2
        exact absurd hope hcl
      · exact htr.started p' j' n r start ht hr hope hsta
    · exact htr.freshAll
    · intro p' j' a' n ha' hu hn ht
      rcases (hm _).mp ht with hq | ht
      · obtain ⟨rfl, hres⟩ := Prod.mk.inj hq
        obtain ⟨rfl, rfl⟩ := Prod.mk.inj hres
        have hf := h.assignments (p', j') a' ha'
        rw [if_pos rfl, hu] at hf
        cases hf.1
      · exact htr.freshIndex p' j' a' n ha' hu hn ht
  · refine h.expected_others hs.expected rfl (fun turn ht => (hm turn).mpr (.inr ht)) hg
      (fun r hr hst => ?_) (fun n hn => ?_) (fun ha => ?_)
    · rcases hne with rfl | hne
      · exact ⟨(hm _).mpr (.inl rfl), ho⟩
      · obtain ⟨hac, ho⟩ := hs.expected.next j p next r hr hst hne
        exact ⟨(hm _).mpr (.inr hac), ho⟩
    · rw [hx] at hn
      obtain rfl := ExecutionSpecifier.index.inj hn
      exact ⟨(hm _).mpr (.inl rfl), ho⟩
    · rw [hx] at ha
      cases ha

end Confirmed

def State.competes (s : State T) (j : JobId A) : Bool :=
  (s.storedJobRegistration.lookup j).any fun registration =>
    registration.extra.assignmentStrategy = .competing

def takeTurn (g : Turns A) (s : State T) : Op T → Turns A
  | .dispatch (.signed p) (.report j) =>
    (s.bookedFor j p).elim g fun i => g.report (p, j, i) (s.competes j)
  | .dispatch (.signed p) (.acknowledgeExecutionMatch j i _) => g.acknowledge (p, j, i)
  | _ => g

def noteTurns (g : Turns A) (s : State T) (op : Op T) : Turns A :=
  if (perform s op).isOk = true then takeTurn g s op else g

def turnsTaken (s : State T) (ops : List (Op T)) : Turns A :=
  recordRun step noteTurns s ⟨[], [], []⟩ ops

def Op.reported : Op T → Option (A × JobId A)
  | .dispatch (.signed p) (.report j) => some (p, j)
  | _ => none

/-- A report for one execution comes while that one is current, or while the one that is noted as the
next is current or in its window. -/
abbrev InTurn (s : State T) (op : Op T) : Prop :=
  ∀ r ∈ op.reported, ∀ a ∈ s.storedMatches.lookup r, ∀ registration ∈ s.storedJobRegistration.lookup r.2,
    a.execution = .all ∨ a.execution = .index (currentReport registration a s.time) ∨
      ∃ n ∈ s.nextReportIndex.lookup (r.2, r.1), n = currentReport registration a s.time ∨
        (checkReportIsTimely T registration a s.time n).isOk = true

theorem InTurn.booked {n : ℕ} (h : InTurn s (.dispatch (.signed p) (.report j)))
    (ha : s.storedMatches.lookup (p, j) = some a)
    (hr : s.storedJobRegistration.lookup j = some reg) (hx : a.execution = .index n)
    (hb : s.bookedFor j p = some i) : i = n ∨ s.nextReportIndex.lookup (j, p) = some i := by
  simp only [State.bookedFor, bind, ha, hr, Option.bind_some, Option.bind_eq_some_iff,
    toOption_eq_some, pure, Option.some.injEq] at hb
  obtain ⟨⟨reported, missing⟩, hbo, rfl⟩ := hb
  have hc := h (p, j) rfl a ha reg hr
  simp only [hx, reduceCtorEq, ExecutionSpecifier.index.injEq, false_or] at hc
  unfold bookedExecution State.expectedReport at hbo
  cases hn : s.nextReportIndex.lookup (j, p) with
  | none =>
    rw [hn] at hc hbo
    rw [Option.getD_none, if_neg (fun hf => hf.2 rfl)] at hbo
    obtain rfl | ⟨_, ⟨⟩, -⟩ := hc
    obtain ⟨rfl, -⟩ := Prod.mk.inj (Except.ok.inj hbo)
    exact .inl rfl
  | some m =>
    rw [hn] at hc hbo
    rw [Option.getD_some] at hbo
    split_ifs at hbo with hl
    · obtain ⟨⟨⟩, -, hbo⟩ := bind_eq_ok.mp hbo
      obtain ⟨rfl, -⟩ := Prod.mk.inj (Except.ok.inj hbo)
      obtain rfl | ⟨_, ⟨⟩, rfl | hk⟩ := hc
      · exact .inl rfl
      · exact absurd rfl hl.2
      · rw [hl.1] at hk
        cases hk
    · obtain ⟨rfl, -⟩ := Prod.mk.inj (Except.ok.inj hbo)
      exact .inr rfl

/-- The matches of an operation follow the strategies of the jobs, its report is booked in turn, and no job
is registered a second time by it. -/
abbrev Steady (s : State T) (op : Op T) : Prop :=
  Agreed Fitting s op ∧ InTurn s op ∧ (registeredIds (step s op).history).Nodup

theorem perform_turns (h : perform s op = .ok s') :
    (∃ p j, op = .dispatch (.signed p) (.report j) ∧ doReport s j p = .ok s') ∨
    (∃ p j keys, processAcknowledgeMatch s p j .all keys = .ok s' ∧ ∀ g, takeTurn g s op = g) ∨
    (∃ p j i keys, processAcknowledgeMatch s p j (.index i) keys = .ok s' ∧
      ∀ g, takeTurn g s op = g.acknowledge (p, j, i)) ∨
    Calm s.book s'.book ∧ ∀ g, takeTurn g s op = g := by
  have ht : ∀ j n, Calm s.book (cleanupStorage s j n).book := by
    intro j n
    have hsta : Staffs none s (cleanupStorage s j n) := cleanupStorage_staffs s j n
    exact (Quiet.of_staffs hsta).calm
  have hs : s'.book = s.book → Calm s.book s'.book :=
    fun hb => (Quiet.of_book hb rfl rfl).calm
  cases op with
  | dispatch o call =>
    have hc := dispatch_cases h
    cases o with
    | root =>
      refine .inr (.inr (.inr ⟨?_, fun _ => rfl⟩))
      rcases hc with ⟨j, n, rfl⟩ | hb | ⟨p, hp, -⟩
      · exact ht j n
      · exact hs hb
      · cases hp
    | signed p =>
      cases call with
      | report j => exact .inl ⟨p, j, rfl, h⟩
      | acknowledgeMatch j keys => exact .inr (.inl ⟨p, j, keys, h, fun _ => rfl⟩)
      | acknowledgeExecutionMatch j i keys =>
        exact .inr (.inr (.inl ⟨p, j, i, keys, h, fun _ => rfl⟩))
      | _ =>
        refine .inr (.inr (.inr ⟨?_, fun _ => rfl⟩))
        rcases hc with ⟨j, n, rfl⟩ | hb | ⟨p', -, hsi⟩
        · exact ht j n
        · exact hs hb
        · exact dispatchSigned_calm hsi nofun nofun nofun
  | execute act =>
    refine .inr (.inr (.inr ⟨?_, fun _ => rfl⟩))
    cases act with
    | registerJob j reg => exact (registerFor_quiet h).calm
    | deregisterJob j => exact deregisterFor_calm h
    | setJobEnvironment j envs => exact hs (setEnvironmentFor_book h)
  | timestamp now =>
    cases h
    refine .inr (.inr (.inr ⟨?_, fun _ => rfl⟩))
    exact ⟨fun _ _ ha _ => ha, fun _ _ hn => hn, fun _ _ _ _ => rfl⟩
  | outside w =>
    cases h
    exact .inr (.inr (.inr ⟨hs rfl, fun _ => rfl⟩))

theorem step_turned (hdel : T.matchingCompetingDueDelta ≤ 2 * T.matchingCompetingMinInterval)
    (hop : Steady s op) (hs : Turned g s) : Turned (noteTurns g s op) (step s op) := by
  obtain ⟨hg, hu, hon⟩ := hop
  have hd := step_deals hg
  have ho : Orderly T (step s op).book := hd.invariant (fun _ _ => Deal.orderly) hs.orderly
  have ht : Traced g (step s op).book := hd.traced hdel hs.orderly.indexed hon hs.traced
  cases hp : perform s op with
  | error e =>
    have hst : step s op = s := by
      unfold step
      rw [hp]
      rfl
    have hno : noteTurns g s op = g := by
      unfold noteTurns
      rw [hp]
      rfl
    rw [hst, hno]
    exact hs
  | ok s' =>
    have hst : step s op = s' := by
      unfold step
      rw [hp]
      rfl
    have hno : noteTurns g s op = takeTurn g s op := by
      unfold noteTurns
      rw [hp]
      rfl
    rw [hst] at hd ho ht hon ⊢
    rw [hno]
    rcases perform_turns hp with ⟨p, j, rfl, hrepo⟩ | ⟨p, j, keys, hc, ha⟩ |
      ⟨p, j, i, keys, hc, ha⟩ | ⟨hca, ha⟩
    · obtain ⟨reg, a, i, hbo, hr⟩ := doReport_reported hrepo
      have ha : takeTurn g s (.dispatch (.signed p) (.report j)) =
          g.report (p, j, i) (s.competes j) := by
        simp only [takeTurn, hbo, Option.elim_some]
      rw [ha]
      refine hr.turned hs (fun n hn => ?_) (fun hco => ?_) ho ht
      · exact hu.booked hr.found hr.registered hn hbo
      · unfold State.competes at hco
        rw [hr.registered] at hco
        exact of_decide_eq_true hco
    · rw [ha]
      obtain ⟨reg, a, hre, hf, hx, ⟨hac, hb⟩ | ⟨next, hfi⟩⟩ :=
        processAcknowledgeMatch_confirmed hc
      · refine ⟨ho, ht, ?_, hs.distinct, hs.competing⟩
        rw [hb]
        exact hs.expected.rekey hf
      · exact hfi.turned_all hs hre hx ho ht
    · rw [ha]
      obtain ⟨reg, a, hre, hf, hx, ⟨hac, hb⟩ | ⟨next, hfi⟩⟩ :=
        processAcknowledgeMatch_confirmed hc
      · have hk := (hs.expected.index p j a i hf hac hx).1
        have hsa : g.acknowledge (p, j, i) = g := by
          unfold Turns.acknowledge
          rw [List.insert_of_mem hk]
        rw [hsa]
        refine ⟨ho, ht, ?_, hs.distinct, hs.competing⟩
        rw [hb]
        exact hs.expected.rekey hf
      · exact hfi.turned_index hs hre hx ho ht
    · rw [ha]
      exact ⟨ho, ht, hca.expected hd ho.indexed hon hs.expected, hs.distinct, hs.competing⟩

theorem genesis_turned (w : T.World) : Turned ⟨[], [], []⟩ (State.genesis T w) := by
  refine ⟨genesis_orderly w, ⟨?_, ?_, ?_, ?_, ?_, ?_, ?_, ?_⟩, ⟨?_, ?_, ?_, ?_⟩, List.nodup_nil, ?_⟩
  · rintro j reg ⟨⟩
  · rintro p j i (⟨⟨⟩⟩ | ⟨⟨⟩⟩)
  · rintro p j i ⟨⟩
  · rintro p j i reg ⟨⟩
  · rintro p j i reg ⟨⟩
  · rintro p j i reg start ⟨⟩
  · rintro p j a i ⟨⟩
  · rintro p j a i ⟨⟩
  · rintro j p n ⟨⟩
  · rintro j p n reg ⟨⟩
  · rintro p j a i ⟨⟩
  · rintro p j a ⟨⟩
  · rintro turn ⟨⟩

/-- In every steady run no processor has two reports booked for one execution of a job, and what is booked
for a competing job was acknowledged by its processor. -/
theorem executions_booked_once (T : Config A) (world : T.World)
    (hdelta : T.matchingCompetingDueDelta ≤ 2 * T.matchingCompetingMinInterval) (ops : List (Op T))
    (hrun : Along step Steady (State.genesis T world) ops) :
    (turnsTaken (State.genesis T world) ops).booked.Nodup ∧
      ∀ turn ∈ (turnsTaken (State.genesis T world) ops).competing,
        turn ∈ (turnsTaken (State.genesis T world) ops).acknowledged := by
  have hk : ∀ (s : State T) (g : Turns A) (op : Op T), Steady s op → Turned g s →
      Turned (noteTurns g s op) (step s op) := fun s g op => step_turned hdelta
  have ht := recordRun_invariant hk hrun (genesis_turned world)
  exact ⟨ht.distinct, ht.competing⟩

def fourTimes : Schedule := ⟨5, 1000000, 2200000, 300000, 0, by decide⟩

def firstExecution : List (Op mock) :=
  [signed 1 (.register (plainJob fourTimes .competing 10) none), advertised 2, .timestamp 900000,
    proposedExecution 1 0 2 0, signed 2 (.acknowledgeExecutionMatch (mockJob 1) 0 [])]

def firstReport : List (Op mock) :=
  firstExecution ++ [.timestamp 1000000, signed 2 (.report (mockJob 1))]

theorem executions_booked_once_of_firstReport :
    (turnsTaken (State.genesis mock (1 : ℕ)) firstReport).booked = [(2, mockJob 1, 0)] ∧
      (turnsTaken (State.genesis mock (1 : ℕ)) firstReport).booked.Nodup ∧
      ∀ turn ∈ (turnsTaken (State.genesis mock (1 : ℕ)) firstReport).competing,
        turn ∈ (turnsTaken (State.genesis mock (1 : ℕ)) firstReport).acknowledged :=
  ⟨by decide +kernel,
    executions_booked_once mock (1 : ℕ) (by decide) firstReport (by decide +kernel)⟩

/-- The same processor gets the second execution too, and reports both of them as the fourth one begins. -/
def lateReports : List (Op mock) :=
  firstExecution ++ [.timestamp 1200000, proposedExecution 1 1 2 0,
    signed 2 (.acknowledgeExecutionMatch (mockJob 1) 1 []), .timestamp 1900000,
    signed 2 (.report (mockJob 1)), signed 2 (.report (mockJob 1))]

theorem booked_twice_of_lateReports :
    (turnsTaken (State.genesis mock (1 : ℕ)) lateReports).booked = [(2, mockJob 1, 3), (2, mockJob 1, 3)] ∧
      (2, mockJob 1, 3) ∈ (turnsTaken (State.genesis mock (1 : ℕ)) lateReports).competing ∧
      (2, mockJob 1, 3) ∉ (turnsTaken (State.genesis mock (1 : ℕ)) lateReports).acknowledged ∧
      (after lateReports).executionStatus (mockJob 1) 3 = .opened := by
  decide +kernel

end Acurast.Marketplace
