import Acurast.Marketplace.Indexed
import Acurast.Marketplace.Mock

/-! Whether a processor can be booked twice for one time. The check of a match asks `overlaps`, which is
right only about some periods; as long as it is asked about those, no two executions meet. -/

namespace Acurast.Marketplace

open Base

section Schedules

variable {schedule sched other : Schedule} {startDelay delay otherDelay : ℕ}

def Begins (execution : ExecutionSpecifier) (schedule : Schedule) (startDelay start : ℕ) : Prop :=
  ∃ i, execution.covers i = true ∧ schedule.nthStartTime startDelay i = some start

def Apart (execution : ExecutionSpecifier) (schedule : Schedule) (startDelay : ℕ)
    (otherExecution : ExecutionSpecifier) (other : Schedule) (otherDelay : ℕ) : Prop :=
  ∀ start otherStart, Begins execution schedule startDelay start →
    Begins otherExecution other otherDelay otherStart →
    start + schedule.duration ≤ otherStart ∨ otherStart + other.duration ≤ start

variable {execution ex : ExecutionSpecifier} {i stop start : ℕ}

theorem Apart.symm {otherExecution : ExecutionSpecifier}
    (h : Apart execution schedule startDelay otherExecution other otherDelay) :
    Apart otherExecution other otherDelay execution schedule startDelay :=
  fun _ _ ho hb => (h _ _ hb ho).symm

abbrev Reliable (schedule : Schedule) (startDelay : ℕ) (bounds : ℕ × ℕ) : Prop :=
  schedule.overlaps startDelay bounds = false → schedule.Judges startDelay bounds

/-- Every question that decides about a planned execution and an assignment gets a reliable answer, and
is asked with the delay that it is about. -/
def Decided (execution : ExecutionSpecifier) (schedule : Schedule) (startDelay : ℕ)
    (otherExecution : ExecutionSpecifier) (other : Schedule) (otherDelay : ℕ) : Prop :=
  schedule.Representable startDelay ∧ other.Representable otherDelay ∧
    Reliable schedule startDelay (other.range otherDelay) ∧
    (schedule.overlaps startDelay (other.range otherDelay) = true →
      match execution, otherExecution with
      | .all, .index i => ∀ start ∈ other.nthStartTime otherDelay i,
        Reliable schedule startDelay (start, start + other.duration)
      | .index i, .all => startDelay = otherDelay ∧ ∀ start ∈ schedule.nthStartTime startDelay i,
        Reliable other otherDelay (start, start + schedule.duration)
      | .all, .all | .index _, .index _ => True)

instance (execution : ExecutionSpecifier) (schedule : Schedule) (startDelay : ℕ)
    (otherExecution : ExecutionSpecifier) (other : Schedule) (otherDelay : ℕ) :
    Decidable (Decided execution schedule startDelay otherExecution other otherDelay) := by
  unfold Decided
  cases execution <;> cases otherExecution <;> infer_instance

theorem executionWindow_ok {window : ℕ × ℕ} (h : executionWindow sched delay i = .ok window) :
    ∃ start, sched.nthStartTime delay i = some start ∧
      window = (start, start + sched.duration) := by
  simp only [executionWindow, ok_iff, checkedAdd_eq_some] at h
  obtain ⟨start, hs, _, ⟨rfl, -⟩, rfl⟩ := h
  exact ⟨start, hs, rfl⟩

theorem checkSequence_pairwise {l : List (Option (ℕ × ℕ))} {prevEnd : ℕ}
    (hl : ∀ w ∈ l, ∀ a b, w = some (a, b) → a ≤ b) (h : l.foldlM checkSequence prevEnd = .ok stop) :
    (∀ w ∈ l, ∃ a b, w = some (a, b) ∧ prevEnd ≤ a) ∧
      l.Pairwise fun w w' => ∀ a b a' b', w = some (a, b) → w' = some (a', b') → b ≤ a' := by
  induction l generalizing prevEnd with
  | nil => exact ⟨fun w hw => (by cases hw), .nil⟩
  | cons w l ih =>
    rw [List.foldlM_cons, bind_eq_ok] at h
    obtain ⟨next, hf, hr⟩ := h
    simp only [checkSequence, ok_iff] at hf
    obtain ⟨⟨a, b⟩, rfl, ⟨⟩, hp, rfl⟩ := hf
    have hab : a ≤ b := hl _ (List.mem_cons_self ..) a b rfl
    obtain ⟨ha, hpa⟩ := ih (fun w hw => hl w (List.mem_cons_of_mem _ hw)) hr
    refine ⟨fun w hw => ?_, .cons (fun w' hw' a₁ b₁ a' b' hw hw'' => ?_) hpa⟩
    · rcases List.mem_cons.mp hw with rfl | hw
      · exact ⟨a, b, rfl, hp⟩
      · obtain ⟨a', b', rfl, hb⟩ := ha w hw
        exact ⟨a', b', rfl, hp.trans (hab.trans hb)⟩
    · obtain ⟨a₂, b₂, rfl, hb⟩ := ha w' hw'
      cases hw
      cases hw''
      exact hb

theorem windows_le {starts : List ℕ} {w : Option (ℕ × ℕ)} (hw : w ∈ windows sched starts) (a b : ℕ)
    (ha : w = some (a, b)) : a ≤ b := by
  obtain ⟨start, -, rfl⟩ := List.mem_map.mp hw
  simp only [Option.map_eq_some_iff, checkedAdd_eq_some, Prod.mk.injEq] at ha
  obtain ⟨_, ⟨rfl, -⟩, rfl, rfl⟩ := ha
  exact Nat.le_add_right _ _

theorem mem_windows {starts : List ℕ} (hp : sched.Proper)
    (hs : sched.starts delay = some starts)
    (ht : sched.nthStartTime delay i = some start) :
    (checkedAdd 64 start sched.duration).map (start, ·) ∈ windows sched starts := by
  obtain ⟨hi, rfl, -⟩ := Schedule.nthStartTime_eq_some.mp ht
  obtain rfl := Schedule.starts_eq_some hp.interval_pos hs
  exact List.mem_map.mpr ⟨_, List.mem_map.mpr ⟨i, List.mem_range.mpr hi, rfl⟩, rfl⟩

theorem apart_of_merge {starts otherStarts : List ℕ} (hr : sched.Proper)
    (ho : other.Proper) (ht : sched.starts delay = some starts)
    (hos : other.starts otherDelay = some otherStarts)
    (h : ((windows sched starts).merge (windows other otherStarts) windowLe).foldlM
      checkSequence 0 = .ok stop) : Apart .all sched delay .all other otherDelay := by
  have hp : ((windows sched starts).merge (windows other otherStarts) windowLe).Perm
      (windows sched starts ++ windows other otherStarts) := List.merge_perm_append windowLe
  have hl : ∀ w ∈ (windows sched starts).merge (windows other otherStarts) windowLe,
      ∀ a b, w = some (a, b) → a ≤ b := by
    intro w hw
    rcases List.mem_append.mp (hp.mem_iff.mp hw) with hw | hw
    · exact windows_le hw
    · exact windows_le hw
  obtain ⟨hs, hpa⟩ := checkSequence_pairwise hl h
  -- apart in either order is symmetric, so it holds of the windows before they were merged
  have hap : (windows sched starts ++ windows other otherStarts).Pairwise fun w w' =>
      ∀ a b a' b', w = some (a, b) → w' = some (a', b') → b ≤ a' ∨ b' ≤ a := by
    refine (hp.pairwise_iff ?_).mp (hpa.imp ?_)
    · intro w w' hw a b a' b' ha ha'
      exact (hw a' b' a b ha' ha).symm
    · intro w w' hw a b a' b' ha ha'
      exact .inl (hw a b a' b' ha ha')
  have hc := (List.pairwise_append.mp hap).2.2
  rintro start otherStart ⟨i, -, hi⟩ ⟨i', -, hi'⟩
  have hm := mem_windows hr ht hi
  have hm' := mem_windows ho hos hi'
  obtain ⟨a, b, hw, -⟩ := hs _ (hp.mem_iff.mpr (List.mem_append_left _ hm))
  obtain ⟨a', b', hw', -⟩ := hs _ (hp.mem_iff.mpr (List.mem_append_right _ hm'))
  have hre := hc _ hm _ hm' a b a' b' hw hw'
  simp only [Option.map_eq_some_iff, checkedAdd_eq_some, Prod.mk.injEq] at hw hw'
  obtain ⟨_, ⟨rfl, -⟩, rfl, rfl⟩ := hw
  obtain ⟨_, ⟨rfl, -⟩, rfl, rfl⟩ := hw'
  exact hre

theorem apart_of_reliable {x y : ℕ} (hp : sched.Proper)
    (hfi : sched.Representable delay) (hr : Reliable sched delay (x, y))
    (hf : sched.overlaps delay (x, y) = false) (hl : x < y)
    (hb : Begins ex sched delay start) :
    start + sched.duration ≤ x ∨ y ≤ start := by
  obtain ⟨i, -, hi⟩ := hb
  rcases hp.apart_of_overlaps (hp.ends hfi) (hr hf) hf hi with hm | ha | hea
  · exact absurd hm (Nat.not_le.mpr hl)
  · exact .inr ha
  · exact .inl hea

theorem apart_of_fitsAssignment {a : Assignment} (hp : sched.Proper) (ht : other.Proper)
    (hde : Decided ex sched delay a.execution other a.startDelay)
    (h : fitsAssignment ex sched delay other a = .ok ()) :
    Apart ex sched delay a.execution other a.startDelay := by
  obtain ⟨hf, hof, hre, hres⟩ := hde
  have hpo := hp.duration_pos
  have hop := ht.duration_pos
  unfold fitsAssignment at h
  split_ifs at h with hr
  · -- the ranges of both schedules are apart
    rintro start otherStart hb ⟨i', hc, hi'⟩
    obtain ⟨hfir, hl⟩ := ht.within_range (ht.ends hof) hi'
    have hlt : (other.range a.startDelay).1 < (other.range a.startDelay).2 := by omega
    rcases apart_of_reliable hp hf hre hr hlt hb with hea | hla
    · exact .inl (hea.trans hfir)
    · exact .inr (hl.trans hla)
  · have has := hres (Bool.not_eq_false _ ▸ hr)
    cases hx : ex with
    | all =>
      cases ho : a.execution with
      | all =>
        rw [hx, ho] at h
        simp only [ok_iff] at h
        obtain ⟨starts, ha, otherStarts, hos, stop, hfo, -⟩ := h
        exact apart_of_merge hp ht ha hos hfo
      | index i' =>
        rw [hx, ho] at h has
        simp only [ok_iff] at h
        obtain ⟨window, hw, hf'⟩ := h
        obtain ⟨otherStart, hs, rfl⟩ := executionWindow_ok hw
        rintro start otherStart' hb ⟨i, hc, hi⟩
        obtain rfl : i' = i := of_decide_eq_true hc
        obtain rfl := Option.mem_unique hs hi
        exact apart_of_reliable hp hf (has otherStart hs) hf' (by omega) hb
    | index i =>
      cases ho : a.execution with
      | all =>
        rw [hx, ho] at h has
        simp only [ok_iff] at h
        obtain ⟨window, hw, hf'⟩ := h
        obtain ⟨start, hs, rfl⟩ := executionWindow_ok hw
        obtain ⟨hd, has⟩ := has
        rw [hd] at hf'
        rintro start' otherStart ⟨i', hc, hi'⟩ hb
        obtain rfl : i = i' := of_decide_eq_true hc
        obtain rfl := Option.mem_unique hs hi'
        exact (apart_of_reliable ht hof (has start hs) hf' (by omega) hb).symm
      | index i' =>
        rw [hx, ho] at h
        simp only [ok_iff] at h
        obtain ⟨⟨x, y⟩, hw, ⟨x', y'⟩, hw', hdi⟩ := h
        obtain ⟨start, hs, hq⟩ := executionWindow_ok hw
        obtain ⟨otherStart, hs', he'⟩ := executionWindow_ok hw'
        cases hq
        cases he'
        rintro start₁ otherStart₁ ⟨i₁, hc, hi⟩ ⟨i₂, hc', hi'⟩
        obtain rfl : i = i₁ := of_decide_eq_true hc
        obtain rfl : i' = i₂ := of_decide_eq_true hc'
        obtain rfl := Option.mem_unique hs hi
        obtain rfl := Option.mem_unique hs' hi'
        omega

end Schedules

variable {A : Type} {T : Config A} [DecidableEq A] {b b' : Book A} {p : A} {j : JobId A}
  {registration reg : JobRegistration A} {a a' : Assignment}

def Plannable (T : Config A) (b : Book A) : Deed A → Prop
  | .hire offer => ∀ registration ∈ b.registrations.lookup offer.jobId,
    ∀ entry ∈ iterPrefix b.assignments offer.source, entry.1 ≠ offer.jobId →
    ∀ other ∈ b.registrations.lookup entry.1,
      entry.2.isInvalid other.schedule b.time T.reportTolerance = false →
      Decided offer.execution registration.schedule offer.startDelay entry.2.execution other.schedule
        entry.2.startDelay
  | .release _ _ => True

instance (T : Config A) (b : Book A) (deed : Deed A) : Decidable (Plannable T b deed) := by
  unfold Plannable
  split <;> infer_instance

structure Holds (T : Config A) (b : Book A) (p : A) (j : JobId A) (a : Assignment)
    (registration : JobRegistration A) : Prop where
  assigned : b.assignments.lookup (p, j) = some a
  registered : b.registrations.lookup j = some registration
  valid : a.isInvalid registration.schedule b.time T.reportTolerance = false

def BookedOnce (T : Config A) (b : Book A) : Prop :=
  ∀ p j a registration j' a' other, Holds T b p j a registration → Holds T b p j' a' other → j ≠ j' →
    Apart a.execution registration.schedule a.startDelay a'.execution other.schedule a'.startDelay

omit [DecidableEq A] in
theorem isInvalid_of_le {now later tolerance : ℕ} {sched : Schedule} (hle : now ≤ later)
    (h : a.isInvalid sched later tolerance = false) : a.isInvalid sched now tolerance = false := by
  rw [Assignment.isInvalid_eq] at h ⊢
  split_ifs at h ⊢
  · exact decide_eq_false fun hl => of_decide_eq_false h (hl.trans_le hle)
  · exact decide_eq_false fun hl => of_decide_eq_false h (hl.trans_le hle)

theorem BookedOnce.keep (hb : BookedOnce T b)
    (h : ∀ p j a' r', Holds T b' p j a' r' → ∃ a r, Holds T b p j a r ∧ a'.execution = a.execution ∧
      a'.startDelay = a.startDelay ∧ r'.schedule = r.schedule) : BookedOnce T b' := by
  intro p j₁ a₁ r₁ j₂ a₂ r₂ h₁ h₂ hn
  obtain ⟨a₁', r₁', h₁', he₁, hd₁, hs₁⟩ := h p j₁ a₁ r₁ h₁
  obtain ⟨a₂', r₂', h₂', he₂, hd₂, hs₂⟩ := h p j₂ a₂ r₂ h₂
  rw [he₁, hd₁, hs₁, he₂, hd₂, hs₂]
  exact hb p j₁ a₁' r₁' j₂ a₂' r₂' h₁' h₂' hn

theorem BookedOnce.unassign (hb : BookedOnce T b) (p : A) (j : JobId A) :
    BookedOnce T (b.unassign p j) := by
  refine hb.keep fun p' j' a' r' h => ?_
  have ha := h.assigned
  exact ⟨a', r', ⟨(of_lookup_erase ha).2, h.registered, h.valid⟩, rfl, rfl, rfl⟩

theorem BookedOnce.replace (hb : BookedOnce T b) (hf : b.assignments.lookup (p, j) = some a)
    (ha : b'.assignments = b.assignments.insert (p, j) a')
    (hx : a'.execution = a.execution) (hd : a'.startDelay = a.startDelay)
    (hv : ∀ reg, b.registrations.lookup j = some reg →
      a'.isInvalid reg.schedule b.time T.reportTolerance = false →
      a.isInvalid reg.schedule b.time T.reportTolerance = false)
    (hg : b'.registrations = b.registrations) (ht : b'.time = b.time) :
    BookedOnce T b' := by
  refine hb.keep fun p' j' a₁ r' h => ?_
  obtain ⟨has, hr, hs⟩ := h
  rw [ha, lookup_insert_eq] at has
  rw [hg] at hr
  rw [ht] at hs
  split_ifs at has with hk
  · obtain ⟨rfl, rfl⟩ := Prod.mk.inj hk
    obtain rfl := Option.some.inj has
    exact ⟨a, r', ⟨hf, hr, hv r' hr hs⟩, hx, hd, rfl⟩
  · exact ⟨a₁, r', ⟨has, hr, hs⟩, rfl, rfl, rfl⟩

theorem Assigns.bookedOnce {ex : ExecutionSpecifier} {n : ℕ} (hb : BookedOnce T b)
    (hr : ∀ j reg, b.registrations.lookup j = some reg → reg.schedule.Proper)
    (hf : b.registrations.lookup j = some reg)
    (h : Assigns T (Plannable T) j reg ex b n b') : BookedOnce T b' := by
  induction h with
  | none => exact hb
  | @more n b₁ p a hbe ha ho ih =>
    obtain ⟨hg, -⟩ := hbe.fixed
    rw [← hg] at hr hf
    -- the new assignment against one that the source has already
    have hw : ∀ j' a' other, Holds T b₁ p j' a' other → j' ≠ j →
        Apart a.execution reg.schedule a.startDelay a'.execution other.schedule
          a'.startDelay := by
      intro j' a' other ht hn
      have hd := ho reg hf (j', a') (mem_iterPrefix.mpr ht.assigned) hn other ht.registered ht.valid
      have hfi := ha.fits j' a' ht.assigned other ht.registered ht.valid
      rw [ha.execution_eq]
      exact apart_of_fitsAssignment (hr _ _ hf) (hr _ _ ht.registered) hd hfi
    have hc : ∀ p' j' a' r', Holds T (b₁.assign p j a) p' j' a' r' →
        (p' = p ∧ j' = j ∧ a' = a ∧ r' = reg) ∨ Holds T b₁ p' j' a' r' := by
      intro p' j' a' r' h
      have hs := h.assigned
      simp only [Book.assign, lookup_insert_eq, Prod.mk.injEq] at hs
      split_ifs at hs with hk
      · obtain ⟨rfl, rfl⟩ := hk
        exact .inl ⟨rfl, rfl, (Option.some.inj hs).symm, Option.mem_unique h.registered hf⟩
      · exact .inr ⟨hs, h.registered, h.valid⟩
    intro p' j₁ a₁ r₁ j₂ a₂ r₂ h₁ h₂ hn
    rcases hc p' j₁ a₁ r₁ h₁ with ⟨rfl, rfl, rfl, rfl⟩ | ho₁
    · rcases hc p' j₂ a₂ r₂ h₂ with ⟨-, rfl, -⟩ | ho₂
      · exact absurd rfl hn
      · exact hw j₂ a₂ r₂ ho₂ hn.symm
    · rcases hc p' j₂ a₂ r₂ h₂ with ⟨rfl, rfl, rfl, rfl⟩ | ho₂
      · exact (hw j₁ a₁ r₁ ho₁ hn).symm
      · exact ih p' j₁ a₁ r₁ j₂ a₂ r₂ ho₁ ho₂ hn

theorem MatchesAll.bookedOnce (hb : BookedOnce T b)
    (hr : ∀ j reg, b.registrations.lookup j = some reg → reg.schedule.Proper)
    (hf : b.registrations.lookup j = some reg)
    (h : MatchesAll T (Plannable T) j reg b b') : BookedOnce T b' := by
  cases h with
  | intro his hs has =>
    have ha := has.bookedOnce hb hr hf
    exact ha.keep fun p j a r h => ⟨a, r, ⟨h.assigned, h.registered, h.valid⟩, rfl, rfl, rfl⟩

theorem BookedOnce.register {st : StorageMap (JobId A) JobStatus} (hb : BookedOnce T b)
    (hf : ∀ p, b.assignments.lookup (p, j) = none) :
    BookedOnce T (b.register j reg st) := by
  refine hb.keep fun p' j' a r h => ?_
  have hr := h.registered
  simp only [Book.register, lookup_insert_eq] at hr
  split_ifs at hr with hj
  · have has : b.assignments.lookup (p', j') = some a := h.assigned
    rw [hj, hf p'] at has
    cases has
  · exact ⟨a, r, ⟨h.assigned, hr, h.valid⟩, rfl, rfl, rfl⟩

theorem Deal.bookedOnce (h : Deal T (Plannable T) b b') (hin : Indexed T b) (hb : BookedOnce T b) :
    BookedOnce T b' := by
  have hsa : ∀ {b' : Book A}, b'.time = b.time → b'.registrations = b.registrations →
      b'.assignments = b.assignments → BookedOnce T b' := by
    intro b' hti hg has
    refine hb.keep fun p j a r h => ⟨a, r, ?_, rfl, rfl, rfl⟩
    obtain ⟨hasg, hre, hv⟩ := h
    exact ⟨has ▸ hasg, hg ▸ hre, hti ▸ hv⟩
  have hpr := fun j r hr => (hin.registrable j r hr).proper
  cases h with
  | tick hl =>
    refine hb.keep fun p j a r h => ⟨a, r, ?_, rfl, rfl, rfl⟩
    exact ⟨h.assigned, h.registered, isInvalid_of_le hl h.valid⟩
  | revise hf sched hx =>
    refine hb.keep fun p j a r h => ?_
    have hre := h.registered
    rcases of_lookup_insert hre with ⟨hj, rfl⟩ | ⟨hj, hre⟩
    · have hv := h.valid
      rw [sched] at hv
      exact ⟨a, _, ⟨h.assigned, hj ▸ hf, hv⟩, rfl, rfl, sched⟩
    · exact ⟨a, r, ⟨h.assigned, hre, h.valid⟩, rfl, rfl, rfl⟩
  | @register b₁ j reg st registrable his hop ho hins =>
    have hfr := hin.free his
    have hal := hin.register registrable hfr ⟨_, hop⟩ ho
    have hre : BookedOnce T (b.register j reg st) := hb.register hfr
    rcases hins with rfl | hm
    · exact hre.keep fun p j a r h => ⟨a, r, ⟨h.assigned, h.registered, h.valid⟩, rfl, rfl, rfl⟩
    · have hma := hm.bookedOnce hre (fun j r hr => (hal.registrable j r hr).proper)
        (AList.lookup_insert _)
      exact hma.keep fun p j a r h => ⟨a, r, ⟨h.assigned, h.registered, h.valid⟩, rfl, rfl, rfl⟩
  | reopen => exact hsa rfl rfl rfl
  | matchAll hf hm => exact hm.bookedOnce hb hpr hf
  | matchExecution hf his hs hea hsl ha =>
    have hasg := ha.bookedOnce hb hpr hf
    exact hasg.keep fun p j a r h => ⟨a, r, ⟨h.assigned, h.registered, h.valid⟩, rfl, rfl, rfl⟩
  | drop => exact hb.unassign _ _
  | rekey hf => exact hb.replace hf rfl rfl rfl (fun _ _ => id) rfl rfl
  | acknowledge hreg hf hu ht st hrep hn pay hp =>
    obtain ⟨hg, -, has, -, -, hti, -⟩ := pay.fixed
    obtain ⟨hr', ha', ht', -⟩ := st.fixed
    refine hb.replace hf (has.trans ha') rfl rfl (fun r hr _ => ?_) (hg.trans hr') (hti.trans ht')
    obtain rfl := Option.mem_unique hreg hr
    exact ht
  | report reps hn pay =>
    obtain ⟨hg, -, -, -, -, hti, -⟩ := pay.fixed
    have hc := reps.counted
    subst hc
    exact hb.replace reps.found rfl rfl rfl (fun _ _ => id) hg hti
  | reportLast reps hn pay =>
    obtain ⟨hg, -, -, -, -, hti, -⟩ := pay.fixed
    have hc := reps.counted
    subst hc
    refine BookedOnce.unassign ?_ _ _
    exact hb.replace reps.found rfl rfl rfl (fun _ _ => id) hg hti
  | release fair hreg pay hp =>
    obtain ⟨hg, -, has, -, -, hti, -⟩ := pay.fixed
    exact (hsa hti hg has).unassign _ _
  | deregister hd hex ho =>
    refine hb.keep fun p j a r h => ?_
    have hre := h.registered
    exact ⟨a, r, ⟨h.assigned, (of_lookup_erase hre).2, h.valid⟩, rfl, rfl, rfl⟩

/-- In every run whose matches can be checked, the executions of the valid assignments of a processor to
different registered jobs are apart. -/
theorem no_double_booking (T : Config A) (world : T.World) (ops : List (Op T))
    (hrun : Along step (Agreed (Plannable T)) (State.genesis T world) ops) :
    BookedOnce T (reached world ops).book := by
  have hs : ∀ b b', Deal T (Plannable T) b b' → Indexed T b ∧ BookedOnce T b →
      Indexed T b' ∧ BookedOnce T b' :=
    fun b b' hd hb => ⟨hd.indexed hb.1, hd.bookedOnce hb.1 hb.2⟩
  refine (run_deals hs hrun ⟨genesis_indexed world, ?_⟩).2
  rintro p j a registration j' a' other ⟨⟨⟩, -, -⟩

def bookedApart : List (Op mock) :=
  [signed 1 (.register (plainJob ⟨8, 104, 105, 100, 0, by decide⟩ (.single none) 10) none),
    signed 1 (.register (plainJob ⟨3, 205, 206, 10, 0, by decide⟩ (.single none) 10) none),
    advertised 2, proposed 1 2 0, proposed 2 2 0]

theorem no_double_booking_of_bookedApart :
    (after bookedApart).storedMatches.entries.length = 2 ∧ BookedOnce mock (after bookedApart).book :=
  ⟨by decide +kernel, no_double_booking mock (1 : ℕ) bookedApart (by decide +kernel)⟩

def bookedTwice : List (Op mock) :=
  [signed 1 (.register (plainJob ⟨8, 104, 105, 100, 0, by decide⟩ (.single none) 10) none),
    signed 1 (.register (plainJob ⟨3, 105, 106, 10, 0, by decide⟩ (.single none) 10) none),
    advertised 2, proposed 1 2 0, proposed 2 2 0]

theorem double_booking_of_bookedTwice : ¬ BookedOnce mock (after bookedTwice).book := by
  intro h
  have hf : Holds mock (after bookedTwice).book 2 (mockJob 1) ⟨0, 0, 8, false, ⟨1, 0⟩, [], .all⟩
      (plainJob ⟨8, 104, 105, 100, 0, by decide⟩ (.single none) 10) :=
    ⟨by decide +kernel, by decide +kernel, by decide +kernel⟩
  have hs : Holds mock (after bookedTwice).book 2 (mockJob 2) ⟨0, 0, 3, false, ⟨1, 0⟩, [], .all⟩
      (plainJob ⟨3, 105, 106, 10, 0, by decide⟩ (.single none) 10) :=
    ⟨by decide +kernel, by decide +kernel, by decide +kernel⟩
  have hm := h 2 _ _ _ _ _ _ hf hs (by decide) 104 105 ⟨0, rfl, by decide +kernel⟩
    ⟨0, rfl, by decide +kernel⟩
  revert hm
  decide +kernel

end Acurast.Marketplace
