import Acurast.Compute.LockedFunds

/-! Commitments and managers back each other one to one, and a commitment that was staked once keeps
its manager. -/

namespace Acurast.Compute

open Base

variable {A : Type} {T : Config A} {s s' : State T} {who : A} {c : CommitmentId} {m : ManagerId}

def KeepsIds (T : Config A) (w w' : T.World) : Prop :=
  ∀ who c, T.commitmentIdFor w who = some c → T.commitmentIdFor w' who = some c

theorem KeepsIds.trans {w₁ w₂ w₃ : T.World} (h : KeepsIds T w₁ w₂) (h' : KeepsIds T w₂ w₃) :
    KeepsIds T w₁ w₃ :=
  fun who c hc => h' who c (h who c hc)

/-- The provider of the commitment ids: an id has one owner, an owner keeps its id, and creating an
id gives it to the account it is created for. -/
structure IdLaws (T : Config A) : Prop where
  owner : ∀ w who c, T.commitmentIdFor w who = some c → T.ownerFor w c = some who
  trade : ∀ w w', Trade T w w' → KeepsIds T w w'
  setLock : ∀ w who n, KeepsIds T w (T.setLock w who n)
  removeLock : ∀ w who, KeepsIds T w (T.removeLock w who)
  create : ∀ w c who w', T.commitmentIdFor w who = none → T.createCommitmentId w c who = some w' →
    T.commitmentIdFor w' who = some c ∧ KeepsIds T w w'

variable {w : T.World} {b b' : Terms A}

theorem IdLaws.unique (hl : IdLaws T) {other : A} (h : T.commitmentIdFor w who = some c)
    (h' : T.commitmentIdFor w other = some c) : who = other :=
  Option.some.inj ((hl.owner w who c h).symm.trans (hl.owner w other c h'))

theorem IdLaws.trades (hl : IdLaws T) {w' : T.World} (h : Trades T w w') : KeepsIds T w w' := by
  induction h with
  | refl => exact fun who c hc => hc
  | tail _ ha ih => exact ih.trans (hl.trade _ _ ha)

theorem IdLaws.unlockFunds (hl : IdLaws T) (s : State T) (who : A) (x : ℕ) :
    KeepsIds T s.world (unlockFunds s who x).world := by
  unfold Compute.unlockFunds
  dsimp only
  split_ifs
  · exact hl.removeLock s.world who
  · exact hl.setLock s.world who _

def LeavesIds (s : State T) : Op T → Prop
  | .outside w => KeepsIds T s.world w
  | _ => True

variable [DecidableEq A]

theorem Posting.keepsIds {allow : Notable A → Prop} (h : Posting allow s s') (hla : IdLaws T)
    (hal : ¬ allow .outside) : KeepsIds T s.world s'.world := by
  have hs : KeepsIds T s.world s.world := fun who c hc => hc
  cases h with
  | rest hl => exact hla.trades hl.world
  | outside ha =>
    rcases ha with hle | hn
    · intro who c hc
      rw [hle.commitmentIdFor, hc]
    · exact absurd hn hal
  | create free hr => exact (hla.create _ _ _ _ free hr).2
  | idle | keep | settle | cool => exact hs
  | restake | stake | lower | join => exact hla.setLock _ _ _
  | unstake | leave => exact hla.unlockFunds _ _ _

theorem step_keepsIds (hl : IdLaws T) (s : State T) (op : Op T) (hs : Regular s)
    (hle : LeavesIds s op) : KeepsIds T s.world (step s op).world := by
  by_cases ho : ∃ w, op = .outside w
  · obtain ⟨w, rfl⟩ := ho
    exact hle
  · have ha : Allows (fun n : Notable A => n ≠ .outside) s op :=
      ⟨.inr (by simp), fun _ => .inr (by simp), .inr (by simp), fun w hw => absurd ⟨w, hw⟩ ho,
        fun _ _ => by simp, .inr (by simp), .inr (by simp)⟩
    have hpo := step_postings s op hs ha
    have hk : ∀ s₁ s₂ : State T, Posting (fun n : Notable A => n ≠ .outside) s₁ s₂ →
        KeepsIds T s.world s₁.world → KeepsIds T s.world s₂.world := by
      intro s₁ s₂ hp h
      exact h.trans (hp.keepsIds hl (by simp))
    exact Postings.invariant hk hpo fun who c hc => hc

theorem Amends.unstored (h : Amends T (fun k => k ≠ .stake c) b b')
    (hb : b.commitments.lookup c = none) : b'.commitments.lookup c = none := by
  have hin : ∀ (c' : CommitmentId) (cm cm' : Commitment), b.commitments.lookup c' = some cm →
      (b.commitments.insert c' cm').lookup c = none := by
    intro c' cm cm' hf
    have hn : c ≠ c' := by
      rintro rfl
      rw [hb] at hf
      cases hf
    rw [AList.lookup_insert_ne hn, hb]
  cases h with
  | tick | tend | leave | join => exact hb
  | agree found | restate found | lowerCommission found | raiseCommission found | unstake found =>
    exact hin _ _ _ found
  | @stake c' cm amount period auto free hs min max hw ha =>
    have hn : c ≠ c' := by
      rintro rfl
      exact ha rfl
    rw [AList.lookup_insert_ne hn, hb]

theorem Amends.stored {allow : Clause → Prop} (h : Amends T allow b b')
    (hb : (b.commitments.lookup c).isSome) : (b'.commitments.lookup c).isSome := by
  have hn : ∀ (c' : CommitmentId) (cm : Commitment),
      ((b.commitments.insert c' cm).lookup c).isSome := by
    intro c' cm
    rw [lookup_insert_eq]
    split_ifs
    · rfl
    · exact hb
  cases h with
  | tick | tend | leave | join => exact hb
  | agree | restate | lowerCommission | raiseCommission | stake | unstake => exact hn _ _

theorem step_stored (s : State T) (op : Op T) (h : (s.commitments.lookup c).isSome) :
    ((step s op).commitments.lookup c).isSome := by
  have hp : Permits (fun _ => True) s op := ⟨fun _ _ => trivial, fun _ _ => trivial⟩
  have hk : ∀ b b' : Terms A, Amends T (fun _ => True) b b' →
      (b.commitments.lookup c).isSome → (b'.commitments.lookup c).isSome :=
    fun b b' ha hb => ha.stored hb
  have ht : (s.terms.commitments.lookup c).isSome := h
  exact Amendments.invariant hk (step_terms s op hp) ht

theorem backed_of_stored (hl : IdLaws T) (s : State T) (op : Op T)
    (hn : s.commitments.lookup c = none) (h : ((step s op).commitments.lookup c).isSome) :
    (s.backings.lookup c).isSome := by
  by_cases hc : recommitted s op = some c
  · unfold recommitted at hc
    split at hc
    · next who x per cm rate auto =>
      cases ha : dispatch s (.signed who)
          (.commitCompute x per cm rate auto) with
      | error e =>
        rw [step, ha] at h
        have hs : (s.commitments.lookup c).isSome := h
        rw [hn] at hs
        cases hs
      | ok s' =>
        simp only [dispatch, dispatchSigned, commitCompute, validateMaxMetricStoreCommitments,
          ok_iff] at ha
        obtain ⟨c', hc', s₁, ⟨m, hm, -⟩, -⟩ := ha
        have hke := hl.setLock s.world who (newLockTotal s who x .staking) who c' hc'
        obtain rfl := Option.mem_unique hke hc
        rw [hm]
        rfl
    · cases hc
  · have hpe : Permits (fun k => k ≠ .stake c) s op :=
      ⟨fun c' hc' => by rintro ⟨⟩; exact hc hc', fun p hp => by simp⟩
    have hk : ∀ b b' : Terms A, Amends T (fun k => k ≠ .stake c) b b' →
        b.commitments.lookup c = none → b'.commitments.lookup c = none :=
      fun b b' ham hb => ham.unstored hb
    have ht : s.terms.commitments.lookup c = none := hn
    have hu := Amendments.invariant hk (step_terms s op hpe) ht
    have hf : (step s op).commitments.lookup c = none := hu
    rw [hf] at h
    cases h

theorem step_backs (s : State T) (op : Op T) : Backs s (step s op) := by
  cases op with
  | heartbeat proc manager m ms =>
    obtain ⟨s₁, procs, s₂, w, rewards, hc, hr, -, hq⟩ :=
      commit_writes s proc manager m ms
    obtain ⟨_, _, _, rfl⟩ := hc.writes
    refine .kept ?_
    rw [step, hq]
    cases hr with
    | nothing => rfl
    | scored => rfl
  | block =>
    obtain ⟨_, _, _, _, -, hq⟩ := onInitialize_writes s
    refine .kept ?_
    rw [step, hq]
    rfl
  | outside w => exact .kept rfl
  | dispatch o call =>
    cases h : dispatch s o call with
    | error e =>
      rw [step, h]
      exact .kept rfl
    | ok s' =>
      rw [step, h]
      unfold dispatch at h
      split at h
      · simp only [ok_iff] at h
        obtain ⟨-, -, h⟩ := h
        obtain ⟨_, _, _, rfl⟩ := doCreatePool_writes h
        exact .kept rfl
      · simp only [ok_iff] at h
        obtain ⟨-, -, h⟩ := h
        obtain ⟨_, _, rfl⟩ := modifyPool_writes h
        exact .kept rfl
      · simp only [ok_iff] at h
        obtain ⟨-, -, rfl⟩ := h
        exact .kept rfl
      · split at h
        · cases h
        · exact (dispatchSigned_fixed h).2

/-- What holds of the backings in every state: they are one to one, the owner of a backing commitment
has no offer left, and what is stored backs. -/
structure Backed (s : State T) : Prop where
  inverse : StorageMap.Inverse s.backings s.backingLookup
  owned : ∀ c m, s.backings.lookup c = some m →
    ∃ who, T.commitmentIdFor s.world who = some c ∧ s.backingOffers.lookup who = none
  stored : ∀ c, (s.commitments.lookup c).isSome → (s.backings.lookup c).isSome

theorem Backed.free (h : Backed s) (hl : IdLaws T) (hd : T.commitmentIdFor s.world who = some c)
    (ho : s.backingOffers.lookup who = some m) : s.backings.lookup c = none := by
  by_contra hne
  obtain ⟨m', hm'⟩ := Option.ne_none_iff_exists'.mp hne
  obtain ⟨other, ht, hn⟩ := h.owned c m' hm'
  obtain rfl := hl.unique hd ht
  rw [ho] at hn
  cases hn

theorem Backed.free_of_created (h : Backed s) (hl : IdLaws T)
    (hn : T.commitmentIdFor s.world who = none)
    (hc : T.createCommitmentId s.world c who = some w) : s.backings.lookup c = none := by
  by_contra hne
  obtain ⟨m', hm'⟩ := Option.ne_none_iff_exists'.mp hne
  obtain ⟨other, ho, -⟩ := h.owned c m' hm'
  obtain ⟨hw, hk⟩ := hl.create _ _ _ _ hn hc
  obtain rfl := hl.unique hw (hk other c ho)
  rw [hn] at ho
  cases ho

/-- An accepted offer moves the manager to a commitment that backs nobody, away from one that was never
stored. -/
structure Accepts (s s' : State T) (committer : A) (m : ManagerId) (c : CommitmentId) : Prop where
  offer : s.backingOffers.lookup committer = some m
  unstored : ∀ c' ∈ s.backingLookup.lookup m, s.commitments.lookup c' = none
  offers : s'.backingOffers = s.backingOffers.erase committer
  backings : s'.backings = ((s.backingLookup.lookup m).elim s.backings s.backings.erase).insert c m
  lookup : s'.backingLookup = s.backingLookup.insert m c
  commitments : s'.commitments = s.commitments
  id : (s'.world = s.world ∧ T.commitmentIdFor s.world committer = some c) ∨
    (T.commitmentIdFor s.world committer = none ∧
      T.createCommitmentId s.world c committer = some s'.world)

theorem acceptBackingOffer_accepts {committer : A} (h : acceptBackingOffer s who committer = .ok s') :
    ∃ m c, Accepts s s' committer m c := by
  simp only [acceptBackingOffer, ok_iff, Prod.exists] at h
  obtain ⟨m, -, s₁, hr, of, ho, ⟨⟩, rfl, s₂, c, hd, rfl⟩ := h
  have hl : (∀ c' ∈ s.backingLookup.lookup m, s.commitments.lookup c' = none) ∧
      s₁ = { s with backings := (s.backingLookup.lookup m).elim s.backings s.backings.erase } := by
    simp only [releaseBacking, whenSome_eq_ok, ok_iff] at hr
    rcases hr with ⟨hn, rfl⟩ | ⟨c', hc', ⟨⟩, hu, rfl⟩
    · simp [hn]
    · simp [hc', hu]
  obtain ⟨hu, rfl⟩ := hl
  unfold doGetOrCreateCommitmentId at hd
  split at hd
  · next c' hc' =>
    obtain ⟨rfl, rfl⟩ := Prod.mk.inj (pure_eq_ok.mp hd)
    exact ⟨m, c', ho, hu, rfl, rfl, rfl, rfl, .inl ⟨rfl, hc'⟩⟩
  · next hn =>
    simp only [ok_iff, Prod.mk.injEq] at hd
    obtain ⟨next, -, w, hw, rfl, rfl⟩ := hd
    exact ⟨m, _, ho, hu, rfl, rfl, rfl, rfl, .inr ⟨hn, hw⟩⟩

namespace Accepts

variable {committer : A}

theorem free (h : Accepts s s' committer m c) (hl : IdLaws T) (hs : Backed s) :
    s.backings.lookup c = none := by
  rcases h.id with ⟨-, hd⟩ | ⟨hn, hc⟩
  · exact hs.free hl hd h.offer
  · exact hs.free_of_created hl hn hc

theorem owner (h : Accepts s s' committer m c) (hl : IdLaws T) :
    T.commitmentIdFor s'.world committer = some c := by
  rcases h.id with ⟨hw, hd⟩ | ⟨hn, hc⟩
  · rw [hw, hd]
  · exact (hl.create _ _ _ _ hn hc).1

variable {c' : CommitmentId}

theorem lookup_of_ne (h : Accepts s s' committer m c) (hn : c' ≠ c)
    (hs : s.backingLookup.lookup m ≠ some c') :
    s'.backings.lookup c' = s.backings.lookup c' := by
  rw [h.backings, AList.lookup_insert_ne hn]
  cases hm : s.backingLookup.lookup m with
  | none => rfl
  | some c₀ =>
    have hn₀ : c' ≠ c₀ := fun hq => hs (by rw [hm, hq])
    exact AList.lookup_erase_ne hn₀

theorem lookup_of_stored (h : Accepts s s' committer m c) (hl : IdLaws T) (hs : Backed s)
    (ht : (s.commitments.lookup c').isSome) :
    s'.backings.lookup c' = s.backings.lookup c' := by
  apply h.lookup_of_ne
  · rintro rfl
    have hb := hs.stored c' ht
    rw [h.free hl hs] at hb
    cases hb
  · intro hm
    rw [h.unstored c' hm] at ht
    cases ht

theorem backed (h : Accepts s s' committer m c) (hl : IdLaws T)
    (hd : KeepsIds T s.world s'.world) (hs : Backed s) : Backed s' where
  inverse := by
    rw [h.backings, h.lookup]
    exact hs.inverse.rebind (h.free hl hs) m
  owned := by
    intro c' m' hc'
    rw [h.offers]
    by_cases hn : c' = c
    · exact ⟨committer, hn ▸ h.owner hl, AList.lookup_erase committer _⟩
    · have hb : s.backings.lookup c' = some m' := by
        rw [h.backings, AList.lookup_insert_ne hn] at hc'
        cases hm : s.backingLookup.lookup m with
        | none => rwa [hm] at hc'
        | some c₀ =>
          rw [hm, Option.elim_some] at hc'
          exact (of_lookup_erase hc').2
      obtain ⟨who, hid, ho⟩ := hs.owned c' m' hb
      refine ⟨who, hd who c' hid, ?_⟩
      rw [lookup_erase_eq, ho, ite_self]
  stored := by
    intro c' ht
    rw [h.commitments] at ht
    rw [h.lookup_of_stored hl hs ht]
    exact hs.stored c' ht

end Accepts

theorem step_backings_of_stored (hl : IdLaws T) (s : State T) (op : Op T) (hs : Backed s)
    (ht : (s.commitments.lookup c).isSome) :
    (step s op).backings.lookup c = s.backings.lookup c := by
  have ha := step_backs s op
  generalize step s op = s' at ha ⊢
  cases ha with
  | kept hb =>
    have hc := congrArg Backing.backings hb
    have hsa : s'.backings = s.backings := hc
    rw [hsa]
  | offer | withdraw => rfl
  | accept call =>
    obtain ⟨m, c', hac⟩ := acceptBackingOffer_accepts call
    exact hac.lookup_of_stored hl hs ht

theorem step_backed (hl : IdLaws T) (s : State T) (op : Op T) (hr : Regular s)
    (hle : LeavesIds s op) (hs : Backed s) : Backed (step s op) := by
  have hids := step_keepsIds hl s op hr hle
  have ha := step_backs s op
  -- what a step stores for the first time backs already in the state before it
  have ht : ∀ c, ((step s op).commitments.lookup c).isSome → (s.backings.lookup c).isSome := by
    intro c hc
    by_cases hbe : (s.commitments.lookup c).isSome
    · exact hs.stored c hbe
    · exact backed_of_stored hl s op (Option.not_isSome_iff_eq_none.mp hbe) hc
  generalize step s op = s' at hids ha ht ⊢
  cases ha with
  | kept hb =>
    obtain ⟨ho, hba, hlo⟩ : s'.backingOffers = s.backingOffers ∧
        s'.backings = s.backings ∧ s'.backingLookup = s.backingLookup := by
      simpa only [State.backing, Backing.mk.injEq] using hb
    refine ⟨by rw [hba, hlo]; exact hs.inverse, ?_, by rw [hba]; exact ht⟩
    intro c m hc
    rw [hba] at hc
    obtain ⟨who, hd, hn⟩ := hs.owned c m hc
    exact ⟨who, hids who c hd, by rw [ho, hn]⟩
  | @offer who m free =>
    refine ⟨hs.inverse, fun c m' hc => ?_, ht⟩
    obtain ⟨other, hd, hn⟩ := hs.owned c m' hc
    have hne : other ≠ who := by
      rintro rfl
      rw [free] at hd
      cases hd
    refine ⟨other, hd, ?_⟩
    rw [AList.lookup_insert_ne hne, hn]
  | @withdraw who =>
    refine ⟨hs.inverse, fun c m' hc => ?_, ht⟩
    obtain ⟨other, hd, hn⟩ := hs.owned c m' hc
    refine ⟨other, hd, ?_⟩
    rw [lookup_erase_eq, hn, ite_self]
  | accept call =>
    obtain ⟨m, c', hac⟩ := acceptBackingOffer_accepts call
    exact hac.backed hl hids hs

theorem genesis_backed (w : T.World) : Backed (State.genesis T w) := by
  refine ⟨fun c m => ?_, fun c m hc => ?_, fun c hc => ?_⟩
  · simp [State.genesis]
  · simp [State.genesis] at hc
  · simp [State.genesis] at hc

theorem backings_bijection (hlaws : IdLaws T) (w : T.World) (before after : List (Op T))
    (houtside : Along step LeavesIds (State.genesis T w) (before ++ after)) :
    (∀ c m, (reached w before).backings.lookup c = some m ↔
      (reached w before).backingLookup.lookup m = some c) ∧
    ∀ c, ((reached w before).commitments.lookup c).isSome →
      ∃ m, (reached w before).backings.lookup c = some m ∧
        (reached w (before ++ after)).backings.lookup c = some m := by
  have hk : ∀ (s : State T) op, LeavesIds s op → Regular s ∧ Backed s →
      Regular (step s op) ∧ Backed (step s op) := by
    rintro s op hl ⟨hr, hba⟩
    exact ⟨(step_postings_any s op hr).regular hr, step_backed hlaws s op hr hl hba⟩
  rw [along_append] at houtside
  have hb := run_invariant hk houtside.1 ⟨genesis_regular T w, genesis_backed w⟩
  refine ⟨hb.2.inverse, fun c hc => ?_⟩
  obtain ⟨m, hm⟩ := Option.isSome_iff_exists.mp (hb.2.stored c hc)
  refine ⟨m, hm, ?_⟩
  rw [reached_append]
  -- along the rest of the run the commitment stays stored, and its manager with it
  have hres : ∀ (s : State T) op, LeavesIds s op →
      (Regular s ∧ Backed s) ∧ (s.commitments.lookup c).isSome ∧ s.backings.lookup c = some m →
      (Regular (step s op) ∧ Backed (step s op)) ∧ ((step s op).commitments.lookup c).isSome ∧
        (step s op).backings.lookup c = some m := by
    rintro s op hl ⟨hs, ht, ha⟩
    refine ⟨hk s op hl hs, step_stored s op ht, ?_⟩
    rw [step_backings_of_stored hlaws s op hs.2 ht, ha]
  exact (run_invariant hres houtside.2 ⟨hb, hc, hm⟩).2.2

theorem locking_idLaws : IdLaws locking where
  owner w who c hc := (locking_laws.owner w who c).mpr hc
  trade w w' h := by
    rw [locking_trade h]
    exact fun who c hc => hc
  setLock w who n other c hc := by rw [locking_laws.setLock_ids, hc]
  removeLock w who other c hc := by rw [locking_laws.removeLock_ids, hc]
  create w c who w' hn h := by
    have hd := fun other => locking_laws.create_ids w c who w' other h
    refine ⟨by rw [hd, if_pos rfl], fun other c' hc' => ?_⟩
    have hne : other ≠ who := by
      rintro rfl
      rw [hn] at hc'
      cases hc'
    rw [hd, if_neg hne, hc']

def secondOffer : List (Op locking) := [signed 5 (.offerBacking 1), signed 1 (.acceptBackingOffer 5)]

theorem backings_bijection_of_secondOffer :
    ∃ m, (run step (State.genesis locking (none, fun _ => 0)) (lockedSlash 0)).backings.lookup 0 =
        some m ∧
      (run step (State.genesis locking (none, fun _ => 0)) (lockedSlash 0 ++ secondOffer)).backings.lookup
        0 = some m := by
  have ho : ∀ op ∈ lockedSlash 0 ++ secondOffer, ∀ w, op ≠ .outside w := by
    simp [lockedSlash, secondOffer, newPool, signed, beat]
  have hu : Along step LeavesIds (State.genesis locking (none, fun _ => 0))
      (lockedSlash 0 ++ secondOffer) := by
    refine (Along.of_mem ho).imp fun s op hp => ?_
    cases op with
    | outside w => exact absurd rfl (hp w)
    | dispatch | heartbeat | block => trivial
  have hs : ((run step (State.genesis locking (none, fun _ => 0))
      (lockedSlash 0)).commitments.lookup 0).isSome := by
    decide +kernel
  exact (backings_bijection (T := locking) locking_idLaws (none, fun _ => 0) (lockedSlash 0) secondOffer
    hu).2 0 hs

end Acurast.Compute
