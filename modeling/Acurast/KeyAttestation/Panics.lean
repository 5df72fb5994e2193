import Acurast.KeyAttestation.ChainOfTrust

/-! Where the check of a certificate chain can go out of range: only at an empty key on the curve P-384, which
is read before any signature is checked. -/

namespace Acurast.KeyAttestation

open Base

variable {L : Libraries}

structure DigestLengths (L : Libraries) : Prop where
  sha256 : ∀ payload, (L.sha256 payload).length = 32
  sha384 : ∀ payload, (L.sha384 payload).length = 48

abbrev NonemptyP384 (L : Libraries) (info : SubjectPublicKeyInfo) : Prop :=
  info.algorithm.algorithm = ecdsaPbk →
    ∀ parameters ∈ info.algorithm.parameters, L.parseObjectIdentifier parameters = some curveP384 →
      info.subjectPublicKey ≠ []

variable {info : SubjectPublicKeyInfo}

theorem parseEcdsa_avoids_iff (hk : info.algorithm.algorithm = ecdsaPbk) :
    Avoids .panicked (parseEcdsa L info) ↔ NonemptyP384 L info := by
  have hc : curveP384 ≠ curveP256 := by decide
  have hl : info.subjectPublicKey ≠ [] ↔ 1 ≤ info.subjectPublicKey.length :=
    List.length_pos_iff.symm
  simp only [NonemptyP384, hk, true_imp_iff, hl]
  constructor
  · intro h parameters hp ht
    have h := (avoids_bind.mp h).2 parameters (okOr_eq_ok.mpr hp)
    have h := (avoids_ite.mp ((avoids_bind.mp h).2 curveP384 (okOr_eq_ok.mpr ht))).2 hc
    by_contra hn
    simp [parseP384, hn] at h
  · intro h
    refine avoids_bind.mpr ⟨by simp, fun parameters hp => ?_⟩
    refine avoids_bind.mpr ⟨by simp [parsed], fun typ ht => ?_⟩
    refine avoids_ite.mpr ⟨fun _ => by simp, fun _ => avoids_ite.mpr ⟨fun hq => ?_, fun _ => by simp⟩⟩
    rw [hq] at ht
    simp [parseP384, h parameters (okOr_eq_ok.mp hp) (okOr_eq_ok.mp ht)]

theorem parse_avoids_iff : Avoids .panicked (PublicKey.parse L info) ↔ NonemptyP384 L info := by
  unfold PublicKey.parse
  by_cases hr : info.algorithm.algorithm = rsaPbk
  · have hk : info.algorithm.algorithm ≠ ecdsaPbk := by
      rw [hr]
      decide
    rw [if_pos hr]
    exact iff_of_true (by simp [parsed]) fun h => absurd h hk
  · rw [if_neg hr]
    by_cases hk : info.algorithm.algorithm = ecdsaPbk
    · rw [if_pos hk]
      exact parseEcdsa_avoids_iff hk
    · rw [if_neg hk]
      exact iff_of_true (by simp) fun h => absurd h hk

theorem padHash_avoids {hashed : Bytes} (h : hashed.length = 32 ∨ hashed.length = 48) :
    Avoids .panicked (padHash hashed) := by
  unfold padHash
  rcases h with h | h
  · simp [h]
  · simp [h]

theorem validateEcdsa_avoids {digest : Bytes → Bytes} {pl signature : Bytes} {curve : ECDSACurve}
    (h : (digest pl).length = 32 ∨ (digest pl).length = 48) :
    Avoids .panicked (validateEcdsa L digest pl signature curve) := by
  cases curve with
  | curveP256 key => simp [validateEcdsa]
  | curveP384 x y => simp [validateEcdsa, padHash_avoids h]

theorem validate_avoids (hd : DigestLengths L) (cert : Certificate) (pl : Bytes)
    (key : PublicKey) : Avoids .panicked (validate L cert pl key) := by
  have h256 : (L.sha256 pl).length = 32 ∨ (L.sha256 pl).length = 48 :=
    .inl (hd.sha256 pl)
  have h384 : (L.sha384 pl).length = 32 ∨ (L.sha384 pl).length = 48 :=
    .inr (hd.sha384 pl)
  refine avoids_bind.mpr ⟨by simp, fun _ _ => ?_⟩
  cases key with
  | rsa pbk => simp [validateRsaKey, validateRsa, validateEcdsaKey]
  | ecdsa curve =>
    simp [validateRsaKey, validateEcdsaKey, validateEcdsa_avoids h256, validateEcdsa_avoids h384]

theorem validateByRoot_avoids (hd : DigestLengths L) (link : Link) (roots : List PublicKey) :
    Avoids .panicked (validateByRoot L link roots) := by
  induction roots with
  | nil => simp [validateByRoot]
  | cons root roots ih =>
    unfold validateByRoot
    split
    · simp
    · exact ih
    · exact ih
    · next e _ _ hv =>
      rw [avoids_throw]
      rintro rfl
      exact validate_avoids hd link.cert link.payload root hv

theorem validateLink_avoids (hd : DigestLengths L) (roots : List PublicKey)
    (prevPbk : Option PublicKey) (link : Link) :
    Avoids .panicked (validateLink L roots prevPbk link) := by
  cases prevPbk with
  | some pbk => exact validate_avoids hd _ _ _
  | none =>
    exact avoids_ite.mpr ⟨fun _ => validate_avoids hd _ _ _,
      fun _ => validateByRoot_avoids hd link roots⟩

abbrev Keyless (L : Libraries) (data : CertificateInput) : Prop :=
  ∃ cert ∈ L.parseCert data.val, (L.parseCertPayload data.val).isSome ∧
    ¬ NonemptyP384 L cert.tbsCertificate.subjectPublicKeyInfo

theorem checkCertificate_avoids_iff (hd : DigestLengths L) (roots : List PublicKey) (acc : Progress)
    (data : CertificateInput) :
    Avoids .panicked (checkCertificate L roots acc data) ↔ ¬ Keyless L data := by
  have hl : Avoids .panicked (parseLink L data.val) ↔ ¬ Keyless L data := by
    cases hc : L.parseCert data.val <;> cases hp : L.parseCertPayload data.val <;>
      simp [parseLink, parsed, Keyless, NonemptyP384, hc, hp, okOr_eq_ok, parse_avoids_iff]
  unfold checkCertificate
  rw [avoids_bind, hl, and_iff_left_iff_imp]
  intro _ link _
  refine avoids_bind.mpr ⟨validateLink_avoids hd roots _ link, fun _ _ => ?_⟩
  simp [uniqueId]

/-- The certificates parse, the first one is signed by a trusted root and each other one with the key of the
one before, and their issuers can be written. -/
structure Accepted (L : Libraries) (roots : List PublicKey) (prev : Option PublicKey)
    (chain : List CertificateInput) (links : List Link) : Prop where
  parsed : List.Forall₂ (fun data link => parseLink L data.val = .ok link) chain links
  chained : Chained L roots prev links
  named : ∀ link ∈ links, (L.writeName link.cert.tbsCertificate.issuer).isSome

theorem foldlM_checkCertificate_iff {roots : List PublicKey} {chain : List CertificateInput}
    {acc : Progress} : (∃ acc', chain.foldlM (checkCertificate L roots) acc = .ok acc') ↔
      ∃ links, Accepted L roots (acc.last.map (·.key)) chain links := by
  induction chain generalizing acc with
  | nil => exact iff_of_true ⟨acc, rfl⟩ ⟨[], .nil, .nil _, nofun⟩
  | cons data chain ih =>
    constructor
    · rintro ⟨acc', h⟩
      rw [List.foldlM_cons, bind_eq_ok] at h
      obtain ⟨acc₁, hc, h⟩ := h
      simp only [checkCertificate, uniqueId, ok_iff] at hc
      obtain ⟨link, hl, ⟨⟩, hv, id, ⟨issuer, hi, -⟩, rfl⟩ := hc
      obtain ⟨links, hp, hch, hn⟩ := ih.mp ⟨acc', h⟩
      refine ⟨link :: links, .cons hl hp, .cons hv hch, ?_⟩
      exact List.forall_mem_cons.mpr ⟨Option.isSome_of_eq_some hi, hn⟩
    · rintro ⟨links, hp, hch, hn⟩
      cases hp with
      | @cons _ link _ links hl hp =>
        cases hch with
        | cons hv hch =>
          obtain ⟨hi, hn⟩ := List.forall_mem_cons.mp hn
          obtain ⟨issuer, hi⟩ := Option.isSome_iff_exists.mp hi
          let acc₁ : Progress :=
            ⟨some link, acc.certIds ++ [(issuer, link.cert.tbsCertificate.serialNumber)]⟩
          have hc : checkCertificate L roots acc data = .ok acc₁ := by
            simp only [checkCertificate, uniqueId, hl, ok_iff]
            exact ⟨link, rfl, (), hv, _, ⟨issuer, hi, rfl⟩, rfl⟩
          obtain ⟨acc', h⟩ := (@ih acc₁).mpr ⟨links, hp, hch, hn⟩
          refine ⟨acc', ?_⟩
          rw [List.foldlM_cons, bind_eq_ok]
          exact ⟨_, hc, h⟩

/-- A chain makes the runtime panic exactly if it has a certificate with an empty key on the curve P-384 and
all the certificates before that one are accepted. -/
theorem validation_never_panics_iff (L : Libraries) (hdigests : DigestLengths L)
    {roots : List PublicKey} (hroots : trustedRoots L = .ok roots) (chain : CertificateChainInput) :
    validateCertificateChain L chain ≠ .error .panicked ↔ ∀ before data after links,
      chain.val = before ++ data :: after → Accepted L roots none before links →
        ¬ Keyless L data := by
  have hf : validateCertificateChain L chain ≠ .error .panicked ↔
      Avoids .panicked (chain.val.foldlM (checkCertificate L roots) ⟨none, []⟩) := by
    show Avoids .panicked (validateCertificateChain L chain) ↔ _
    simp [validateCertificateChain, hroots]
  rw [hf, avoids_foldlM_iff]
  constructor
  · intro h before data after links hchain ha
    obtain ⟨acc', hb⟩ : ∃ acc', before.foldlM (checkCertificate L roots) ⟨none, []⟩ = .ok acc' :=
      foldlM_checkCertificate_iff.mpr ⟨links, ha⟩
    exact (checkCertificate_avoids_iff hdigests roots acc' data).mp
      (h before data after acc' hchain hb)
  · intro h before data after acc' hchain hb
    obtain ⟨links, ha⟩ := foldlM_checkCertificate_iff.mp ⟨acc', hb⟩
    exact (checkCertificate_avoids_iff hdigests roots acc' data).mpr
      (h before data after links hchain ha)

def unkeyed : Libraries :=
  { sample with
    parseCert := fun data => match data with
      | [] => some { sampleCertificate 1 2 none with
          tbsCertificate := { (sampleCertificate 1 2 none).tbsCertificate with
            subjectPublicKeyInfo := ⟨⟨ecdsaPbk, some [9]⟩, []⟩ } }
      | _ => sample.parseCert data
    parseObjectIdentifier := fun parameters => if parameters = [9] then some curveP384 else some curveP256
    sha256 := fun _ => List.replicate 32 0
    sha384 := fun _ => List.replicate 48 0 }

theorem unkeyed_digestLengths : DigestLengths unkeyed :=
  ⟨fun _ => List.length_replicate, fun _ => List.length_replicate⟩

def keyless : CertificateInput := ⟨[], Nat.zero_le 3000⟩

def unparsableChain : CertificateChainInput := ⟨[sampleInput 9, keyless], by decide⟩

theorem validation_never_panics_samples :
    validateCertificateChain unkeyed genuineChain ≠ .error .panicked ∧
      validateCertificateChain unkeyed unparsableChain ≠ .error .panicked := by
  constructor
  · refine (validation_never_panics_iff unkeyed unkeyed_digestLengths rfl _).mpr
      fun before data after links hc _ => ?_
    have hk : ∀ data ∈ genuineChain.val, ¬ Keyless unkeyed data := by decide
    exact hk data (hc ▸ List.mem_append_right _ List.mem_cons_self)
  · refine (validation_never_panics_iff unkeyed unkeyed_digestLengths rfl _).mpr
      fun before data after links hc ha hk => ?_
    have hn : ¬ Keyless unkeyed (sampleInput 9) := by decide
    cases before with
    | nil =>
      obtain ⟨rfl, -⟩ := List.cons.inj hc
      exact hn hk
    | cons first before =>
      obtain ⟨rfl, -⟩ := List.cons.inj hc
      cases ha.parsed with
      | cons hl _ => cases hl

def keylessChain : CertificateChainInput := ⟨[keyless, sampleInput 1], by decide⟩

/-- The key of the first certificate is read before anything is checked. -/
theorem panicked_of_keylessChain : DigestLengths unkeyed ∧ (trustedRoots unkeyed).isOk = true ∧
      validateCertificateChain unkeyed keylessChain = .error .panicked :=
  ⟨unkeyed_digestLengths, by decide, rfl⟩

end Acurast.KeyAttestation
