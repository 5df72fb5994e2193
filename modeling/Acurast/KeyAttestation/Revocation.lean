import Acurast.Base.Run
import Acurast.Base.Storage
import Acurast.KeyAttestation.ChainOfTrust

/-! What an accepted chain proves, and how a certificate of it is revoked: a trusted root signed the first
certificate, each one signed the next, and the serial numbers of all of them are kept. -/

namespace Acurast.KeyAttestation

open Base

abbrev SerialNumber := BoundedVec UInt8 serialNumberMaxLength

structure Rules {L : Libraries} {A : Type} (T : Config L A) where
  updateOrigin : Origin A → Bool
  acceptAttestationForOrigin : A → Attestation T → Bool
  /-- The end of the usage of an Android key, as its hardware or else its software enforces it. -/
  usageExpireDateTime : T.Content → Option ℕ

structure Registry {L : Libraries} {A : Type} (T : Config L A) where
  now : ℕ
  storedAttestation : StorageMap A (Attestation T)
  storedRevokedCertificate : StorageMap SerialNumber Unit

def Registry.genesis {L : Libraries} {A : Type} (T : Config L A) : Registry T := ⟨0, ∅, ∅⟩

inductive RegistryError where
  | badOrigin
  | certificateChainTooShort
  | notExtracted (e : Error)
  | attestationRejected
  | failedTimestampConversion
  | attestationCertificateNotValid
  | attestationUsageExpired
  | revokedCertificate
  | fulfillSourceNotVerified
  deriving DecidableEq

def extracted {α : Type} : Except Error α → Except RegistryError α
  | .ok a => .ok a
  | .error e => .error (.notExtracted e)

section Registry

variable {L : Libraries} {A : Type} {T : Config L A}

def ensureNotExpired (rules : Rules T) (now : ℕ) (attestation : Attestation T) :
    Except RegistryError Unit := do
  ensure (now < 2 ^ 64) .failedTimestampConversion
  ensure (now < attestation.validity.notAfter ∧ attestation.validity.notBefore ≤ now)
    .attestationCertificateNotValid
  whenSome (rules.usageExpireDateTime attestation.content) () fun expireDateTime =>
    ensure (now < expireDateTime) .attestationUsageExpired

def ensureNotRevoked (revoked : StorageMap SerialNumber Unit) (attestation : Attestation T) :
    Except RegistryError Unit :=
  attestation.certIds.val.forM fun id => ensure (revoked.lookup id.2 = none) .revokedCertificate

variable [DecidableEq A]

def checkAttestation (rules : Rules T) (s : Registry T) (account : A) :
    Except RegistryError (Attestation T) := do
  let attestation ← okOr (s.storedAttestation.lookup account) .fulfillSourceNotVerified
  ensureNotRevoked s.storedRevokedCertificate attestation
  ensure (rules.acceptAttestationForOrigin account attestation = true) .attestationRejected
  pure attestation

omit [DecidableEq A] in
def validateAttestation (rules : Rules T) (s : Registry T) (chain : CertificateChainInput)
    (account : A) : Except RegistryError (Attestation T) := do
  ensure (2 ≤ chain.val.length) .certificateChainTooShort
  let attestation ← extracted (validateAndExtractAttestation T account chain)
  ensure (rules.acceptAttestationForOrigin account attestation = true) .attestationRejected
  ensureNotExpired rules s.now attestation
  ensureNotRevoked s.storedRevokedCertificate attestation
  pure attestation

def validateAndStore (rules : Rules T) (s : Registry T) (chain : CertificateChainInput) (account : A) :
    Except RegistryError (Registry T) := do
  let attestation ← validateAttestation rules s chain account
  pure { s with storedAttestation := s.storedAttestation.insert account attestation }

inductive ListUpdateOperation where
  | add
  | remove
  deriving DecidableEq

def updateRevoked (revoked : StorageMap SerialNumber Unit)
    (update : ListUpdateOperation × SerialNumber) : StorageMap SerialNumber Unit :=
  match update.1 with
  | .add => revoked.insert update.2 ()
  | .remove => revoked.erase update.2

inductive RegistryOp (A : Type) where
  | submitAttestation (origin : Origin A) (chain : CertificateChainInput)
  | updateCertificateRevocationList (origin : Origin A)
      (updates : List (ListUpdateOperation × SerialNumber))
  | timestamp (now : ℕ)

def performRegistry (rules : Rules T) (s : Registry T) : RegistryOp A → Except RegistryError (Registry T)
  | .submitAttestation origin chain => do
    let who ← okOr origin.signer .badOrigin
    validateAndStore rules s chain who
  | .updateCertificateRevocationList origin updates => do
    ensure (rules.updateOrigin origin = true) .badOrigin
    pure { s with storedRevokedCertificate := updates.foldl updateRevoked s.storedRevokedCertificate }
  | .timestamp now => pure { s with now := max s.now now }

def stepRegistry (rules : Rules T) (s : Registry T) (op : RegistryOp A) : Registry T :=
  transact s (performRegistry rules s op)

end Registry

section Trust

variable {L : Libraries} {roots : List PublicKey} {link : Link}

def Link.id (L : Libraries) (link : Link) : Result CertificateId :=
  uniqueId L link.cert.tbsCertificate.issuer link.cert.tbsCertificate.serialNumber

theorem validateByRoot_ok (h : validateByRoot L link roots = .ok ()) :
    ∃ root ∈ roots, validate L link.cert link.payload root = .ok () := by
  induction roots with
  | nil => cases h
  | cons root roots ih =>
    unfold validateByRoot at h
    split at h
    · next hr => exact ⟨root, List.mem_cons_self .., hr⟩
    · obtain ⟨root', hm, hr'⟩ := ih h
      exact ⟨root', List.mem_cons_of_mem _ hm, hr'⟩
    · obtain ⟨root', hm, hr'⟩ := ih h
      exact ⟨root', List.mem_cons_of_mem _ hm, hr'⟩
    · cases h

def Rooted (L : Libraries) (roots : List PublicKey) (link : Link) : Prop :=
  ∃ root ∈ roots, validate L link.cert link.payload root = .ok () ∧ (link.key ∈ roots → root = link.key)

theorem validateFirst_ok (h : validateFirst L roots link = .ok ()) : Rooted L roots link := by
  unfold validateFirst at h
  split_ifs at h with hr
  · exact ⟨link.key, hr, h, fun _ => rfl⟩
  · obtain ⟨root, hm, hv⟩ := validateByRoot_ok h
    exact ⟨root, hm, hv, fun hk => absurd hk hr⟩

theorem foldlM_checkCertificate_ids {ch : List CertificateInput} {links : List Link}
    {acc acc' : Progress} (h : ch.foldlM (checkCertificate L roots) acc = .ok acc')
    (hp : List.Forall₂ (fun data link => parseLink L data.val = .ok link) ch links) :
    ∃ ids, acc'.certIds = acc.certIds ++ ids ∧ links.mapM (Link.id L) = .ok ids := by
  induction hp generalizing acc with
  | nil =>
    rw [List.foldlM_nil, pure_eq_ok] at h
    exact ⟨[], by rw [← h, List.append_nil], rfl⟩
  | cons hl hn ih =>
    rw [List.foldlM_cons, bind_eq_ok] at h
    obtain ⟨acc₁, hf, hr⟩ := h
    simp only [checkCertificate, ok_iff] at hf
    obtain ⟨link, hl', _, -, id, hid, rfl⟩ := hf
    obtain rfl := Except.ok.inj (hl.symm.trans hl')
    obtain ⟨ids, ha, hd⟩ := ih hr
    refine ⟨id :: ids, ?_, ?_⟩
    · rw [ha, List.append_assoc]
      rfl
    · simp only [List.mapM_cons, ok_iff]
      exact ⟨id, hid, ids, hd, rfl⟩

structure Trusted (L : Libraries) (chain : CertificateChainInput) (ids : List CertificateId)
    (cert : TBSCertificate) (key : PublicKey) (roots : List PublicKey) (links : List Link) : Prop where
  rootKeys : trustedRoots L = .ok roots
  parsed : List.Forall₂ (fun data link => parseLink L data.val = .ok link) chain.val links
  first : ∃ first, links.head? = some first ∧ Rooted L roots first
  signs : links.IsChain (Signs L)
  last : ∃ last, links.getLast? = some last ∧ last.cert.tbsCertificate = cert ∧ last.key = key
  ids : links.mapM (Link.id L) = .ok ids

theorem validateCertificateChain_trusted {ch : CertificateChainInput} {ids : List CertificateId}
    {cert : TBSCertificate} {key : PublicKey}
    (h : validateCertificateChain L ch = .ok (ids, cert, key)) :
    ∃ roots links, Trusted L ch ids cert key roots links := by
  simp only [validateCertificateChain, ok_iff, Prod.mk.injEq] at h
  obtain ⟨roots, hr, acc, hf, last, hl, rfl, hce, hk⟩ := h
  obtain ⟨links, hc⟩ := foldlM_checkCertificate hf
  obtain ⟨ids, hd, hm⟩ := foldlM_checkCertificate_ids hf hc.parsed
  have hg : links.getLast? = some last := by
    rw [← hl, hc.last, Option.or_none]
  refine ⟨roots, links, hr, hc.parsed, ?_, hc.chained.isChain, ⟨last, hg, hce, hk⟩, ?_⟩
  · cases hc.chained with
    | nil => cases hg
    | cons ha tail => exact ⟨_, rfl, validateFirst_ok ha⟩
  · rw [hd]
    exact hm

end Trust

section Revocation

variable {L : Libraries} {A : Type} {T : Config L A} {revoked : StorageMap SerialNumber Unit}
  {attestation att : Attestation T}

def IsRevoked (revoked : StorageMap SerialNumber Unit) (link : Link) : Prop :=
  ∃ serialNumber : SerialNumber, serialNumber.val = link.cert.tbsCertificate.serialNumber ∧
    revoked.lookup serialNumber = some ()

theorem boundCertId_val {id : CertificateId} {certId : CertId} (h : boundCertId id = .ok certId) :
    certId.2.val = id.2 := by
  simp only [boundCertId, tryBounded, ok_iff] at h
  obtain ⟨issuer, -, serialNumber, hs, rfl⟩ := h
  split_ifs at hs
  exact congrArg Subtype.val (Option.some.inj hs).symm

variable {link : Link}

theorem exists_certId_of_accepted {src : A} {ch : CertificateChainInput} {links : List Link}
    {ids : List CertificateId} {cert : TBSCertificate} {key : PublicKey}
    (h : validateAndExtractAttestation T src ch = .ok att)
    (hv : validateCertificateChain L ch = .ok (ids, cert, key))
    (hs : links.mapM (Link.id L) = .ok ids) (hl : link ∈ links) :
    ∃ certId ∈ att.certIds.val, certId.2.val = link.cert.tbsCertificate.serialNumber := by
  simp only [validateAndExtractAttestation, ok_iff, mapError_eq_ok] at h
  obtain ⟨⟨ids', cert', key'⟩, hc, _, -, _, -, certIds, hci, bounded, hb, _, -, rfl⟩ := h
  obtain ⟨rfl, -⟩ := Prod.mk.inj (Except.ok.inj (hv.symm.trans hc))
  obtain ⟨id, hm, hd⟩ := exists_mem_of_mapM_eq_ok hs hl
  obtain ⟨certId, hm', hce⟩ := exists_mem_of_mapM_eq_ok hci hm
  have hk : bounded.val = certIds := by
    unfold tryBounded at hb
    split_ifs at hb
    exact congrArg Subtype.val (Option.some.inj hb).symm
  refine ⟨certId, hk ▸ hm', ?_⟩
  simp only [Link.id, uniqueId, ok_iff] at hd
  obtain ⟨issuer, -, rfl⟩ := hd
  exact boundCertId_val hce

theorem ensureNotRevoked_of_isRevoked (hk : ∃ certId ∈ att.certIds.val, certId.2.val =
      link.cert.tbsCertificate.serialNumber) (hr : IsRevoked revoked link) :
    ensureNotRevoked revoked att = .error .revokedCertificate := by
  obtain ⟨certId, hm, hs⟩ := hk
  obtain ⟨serialNumber, hv, hl⟩ := hr
  obtain rfl : serialNumber = certId.2 := Subtype.ext (hv.trans hs.symm)
  refine forM_ensure_eq_error hm ?_
  rw [hl]
  nofun

end Revocation

/-- A trusted root signed the first certificate of an accepted chain, each certificate signed the
next, the last one is returned with the ids of all. If any is revoked, the attestation is rejected. -/
theorem accepted_chain_trusted (L : Libraries) (chain : CertificateChainInput) (ids : List CertificateId)
    (cert : TBSCertificate) (key : PublicKey)
    (h : validateCertificateChain L chain = .ok (ids, cert, key)) :
    ∃ roots links, trustedRoots L = .ok roots ∧
      List.Forall₂ (fun data link => parseLink L data.val = .ok link) chain.val links ∧
      (∃ first, links.head? = some first ∧ Rooted L roots first) ∧ links.IsChain (Signs L) ∧
      (∃ last, links.getLast? = some last ∧ last.cert.tbsCertificate = cert ∧ last.key = key) ∧
      links.mapM (Link.id L) = .ok ids ∧
      ∀ {A : Type} (T : Config L A) (source : A) (attestation : Attestation T)
        (revoked : StorageMap SerialNumber Unit),
        validateAndExtractAttestation T source chain = .ok attestation →
        (∃ link ∈ links, IsRevoked revoked link) →
          ensureNotRevoked revoked attestation = .error .revokedCertificate := by
  obtain ⟨roots, links, ht⟩ := validateCertificateChain_trusted h
  refine ⟨roots, links, ht.rootKeys, ht.parsed, ht.first, ht.signs, ht.last, ht.ids, ?_⟩
  intro A T source attestation revoked ha ⟨link, hl, hr⟩
  exact ensureNotRevoked_of_isRevoked (exists_certId_of_accepted ha h ht.ids hl) hr

theorem accepted_chain_trusted_genuineChain :
    ∃ ids cert key att, validateCertificateChain sample genuineChain = .ok (ids, cert, key) ∧
      validateAndExtractAttestation sampleRuntime 2 genuineChain = .ok att ∧
      ensureNotRevoked ((∅ : StorageMap SerialNumber Unit).insert (BoundedVec.singleton 2) ()) att =
        .error .revokedCertificate ∧
      ∃ (roots : List PublicKey) (links : List Link), trustedRoots sample = .ok roots ∧
        (∃ first, links.head? = some first ∧ Rooted sample roots first) ∧
        links.IsChain (Signs sample) ∧ links.mapM (Link.id sample) = .ok ids := by
  have ha : validateCertificateChain sample genuineChain = .ok ([([1], [1]), ([1], [2])],
        (sampleCertificate 1 2 (some [⟨keyAttestationOid, [7]⟩])).tbsCertificate,
        .ecdsa (.curveP256 [2])) := rfl
  obtain ⟨roots, links, hr, -, hf, hs, ⟨last, hl, hce, -⟩, hd, hrev⟩ :=
    accepted_chain_trusted sample _ _ _ _ ha
  have hrevoked : IsRevoked ((∅ : StorageMap SerialNumber Unit).insert (BoundedVec.singleton 2) ())
      last := ⟨BoundedVec.singleton 2, by rw [hce]; rfl, AList.lookup_insert _⟩
  exact ⟨_, _, _, _, ha, rfl, hrev sampleRuntime 2 _ _ rfl ⟨last, List.mem_of_getLast? hl, hrevoked⟩,
    roots, links, hr, hf, hs, hd⟩

section Runs

variable {L : Libraries} {A : Type} [DecidableEq A] {T : Config L A}

def Vouched (s : Registry T) : Prop :=
  ∀ account attestation, s.storedAttestation.lookup account = some attestation →
    ∃ chain, validateAndExtractAttestation T account chain = .ok attestation

omit [DecidableEq A] in
theorem validateAttestation_ok {rules : Rules T} {s : Registry T} {ch : CertificateChainInput}
    {a : A} {attestation : Attestation T}
    (h : validateAttestation rules s ch a = .ok attestation) :
    validateAndExtractAttestation T a ch = .ok attestation := by
  simp only [validateAttestation, ok_iff] at h
  obtain ⟨_, -, attestation', hx, _, -, _, -, _, -, rfl⟩ := h
  cases ha : validateAndExtractAttestation T a ch with
  | ok accepted =>
    rw [ha] at hx
    rw [Except.ok.inj hx]
  | error e =>
    rw [ha] at hx
    cases hx

theorem stepRegistry_vouched (rules : Rules T) (s : Registry T) (op : RegistryOp A) (h : Vouched s) :
    Vouched (stepRegistry rules s op) := by
  refine transact_induction h fun s' hs' => ?_
  cases op with
  | submitAttestation o ch =>
    simp only [performRegistry, validateAndStore, ok_iff] at hs'
    obtain ⟨who, -, att, hv, rfl⟩ := hs'
    intro a attestation' hf
    simp only [lookup_insert_eq] at hf
    split_ifs at hf with ha
    · rw [ha, ← Option.some.inj hf]
      exact ⟨ch, validateAttestation_ok hv⟩
    · exact h a attestation' hf
  | updateCertificateRevocationList o ups =>
    simp only [performRegistry, ok_iff] at hs'
    obtain ⟨_, -, rfl⟩ := hs'
    exact h
  | timestamp now =>
    cases hs'
    exact h

/-- In every run, an accepted attestation was extracted from a chain for the account that leads to a
trusted root and holds no certificate that is revoked by now. -/
theorem checkAttestation_trusted (rules : Rules T) (ops : List (RegistryOp A)) (a : A)
    (att : Attestation T)
    (h : checkAttestation rules (run (stepRegistry rules) (Registry.genesis T) ops) a = .ok att) :
    ∃ ch ids cert key roots links, validateAndExtractAttestation T a ch = .ok att ∧
      Trusted L ch ids cert key roots links ∧ ∀ link ∈ links,
        ¬ IsRevoked (run (stepRegistry rules) (Registry.genesis T) ops).storedRevokedCertificate link := by
  have hv : Vouched (run (stepRegistry rules) (Registry.genesis T) ops) := by
    refine run_invariant' (stepRegistry_vouched rules) ops ?_
    rintro a att ⟨⟩
  simp only [checkAttestation, ok_iff] at h
  obtain ⟨att, hs, ⟨⟩, hu, -, -, rfl⟩ := h
  obtain ⟨ch, ha⟩ := hv a att hs
  have hx := ha
  simp only [validateAndExtractAttestation, bind_eq_ok, mapError_eq_ok] at hx
  obtain ⟨⟨ids, cert, key⟩, hc, -⟩ := hx
  obtain ⟨roots, links, ht⟩ := validateCertificateChain_trusted hc
  refine ⟨ch, ids, cert, key, roots, links, ha, ht, fun link hl hr => ?_⟩
  -- an id of each certificate is kept, so one that is revoked would have been found
  have hk := exists_certId_of_accepted ha hc ht.ids hl
  rw [ensureNotRevoked_of_isRevoked hk hr] at hu
  cases hu

end Runs

def sampleRules : Rules sampleRuntime where
  updateOrigin := fun _ => true
  acceptAttestationForOrigin := fun _ _ => true
  usageExpireDateTime := fun _ => none

def genuineRun : List (RegistryOp UInt8) :=
  [.timestamp 5, .submitAttestation (.signed 2) genuineChain,
    .updateCertificateRevocationList .root [(.add, BoundedVec.singleton 9)], .timestamp 600]

theorem checkAttestation_trusted_genuineChain : ∃ s att ch ids cert key roots links,
    s = run (stepRegistry sampleRules) (Registry.genesis sampleRuntime) genuineRun ∧ s.now = 600 ∧
    s.storedRevokedCertificate.lookup (BoundedVec.singleton 9) = some () ∧
    checkAttestation sampleRules s 2 = .ok att ∧
    validateAndExtractAttestation sampleRuntime 2 ch = .ok att ∧
    Trusted sample ch ids cert key roots links ∧
    ∀ link ∈ links, ¬ IsRevoked s.storedRevokedCertificate link := by
  have ha : checkAttestation sampleRules (run (stepRegistry sampleRules)
      (Registry.genesis sampleRuntime) genuineRun) 2 =
      .ok ⟨⟨[(⟨[1], by decide⟩, ⟨[1], by decide⟩), (⟨[1], by decide⟩, ⟨[2], by decide⟩)],
        by decide⟩, [7], ⟨0, 1000⟩⟩ := rfl
  obtain ⟨ch, ids, cert, key, roots, links, hc, ht, hn⟩ :=
    checkAttestation_trusted sampleRules _ _ _ ha
  exact ⟨_, _, ch, ids, cert, key, roots, links, rfl, rfl, rfl, ha, hc, ht, hn⟩

end Acurast.KeyAttestation
