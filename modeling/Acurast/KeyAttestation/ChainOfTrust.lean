import Acurast.KeyAttestation.Certificates

/-! Which attestation an accepted chain vouches for. Every certificate of it is signed with the key
the certificate before it certifies, and the last one is read, whatever the others carry. -/

namespace Acurast.KeyAttestation

open Base

def issuerNameMaxLength : ℕ := 128

def serialNumberMaxLength : ℕ := 20

abbrev CertId := BoundedVec UInt8 issuerNameMaxLength × BoundedVec UInt8 serialNumberMaxLength

abbrev ValidatingCertIds := BoundedVec CertId chainMaxLength

structure Config (L : Libraries) (A : Type) where
  encodeAccount : A → Bytes
  Content : Type
  tryIntoBounded : ParsedAttestation L → Option Content

structure AttestationValidity where
  notBefore : ℕ
  notAfter : ℕ
  deriving DecidableEq

structure Attestation {L : Libraries} {A : Type} (T : Config L A) where
  certIds : ValidatingCertIds
  content : T.Content
  validity : AttestationValidity

inductive Error where
  | certificateChainValidationFailed | unsupportedAttestationPublicKeyType
  | attestationPublicKeyDoesNotMatchSource | attestationExtractionFailed
  | cannotGetAttestationIssuerName | cannotGetAttestationSerialNumber | cannotGetCertificateId
  | attestationToBoundedTypeConversionFailed
  deriving DecidableEq

def tryBounded {α : Type} (n : ℕ) (l : List α) : Option (BoundedVec α n) :=
  if h : l.length ≤ n then some ⟨l, h⟩ else none

section Validation

variable {L : Libraries} {A : Type} (T : Config L A)

def ensureValidPublicKeyForSource (source : A) : PublicKey → Except Error Unit
  | .ecdsa (.curveP256 key) =>
    ensure (T.encodeAccount source = L.blake2256 key) .attestationPublicKeyDoesNotMatchSource
  | _ => throw .unsupportedAttestationPublicKeyType

omit T in
def boundCertId (id : CertificateId) : Except Error CertId := do
  let issuer ← okOr (tryBounded _ id.1) .cannotGetAttestationIssuerName
  let serialNumber ← okOr (tryBounded _ id.2) .cannotGetAttestationSerialNumber
  pure (issuer, serialNumber)

omit T in
def mapError {α : Type} (r : Result α) (e : Error) : Except Error α :=
  match r with
  | .ok a => .ok a
  | .error _ => .error e

def validateAndExtractAttestation (source : A) (chain : CertificateChainInput) :
    Except Error (Attestation T) := do
  let (certIds, cert, publicKey) ←
    mapError (validateCertificateChain L chain) .certificateChainValidationFailed
  ensureValidPublicKeyForSource T source publicKey
  let parsedAttestation ← mapError (extractAttestation L cert.extensions) .attestationExtractionFailed
  let certIds ← certIds.mapM boundCertId
  let certIds ← okOr (tryBounded chainMaxLength certIds) .cannotGetCertificateId
  let content ← okOr (T.tryIntoBounded parsedAttestation) .attestationToBoundedTypeConversionFailed
  pure ⟨certIds, content, ⟨cert.notBefore, cert.notAfter⟩⟩

end Validation

theorem mapError_eq_ok {α : Type} {r : Result α} {e : Error} {a : α} :
    mapError r e = .ok a ↔ r = .ok a := by
  cases r with
  | ok b => simp [mapError]
  | error e' => simp [mapError]

section Chain

variable {L : Libraries} {roots : List PublicKey}

def Signs (L : Libraries) (a b : Link) : Prop := validate L b.cert b.payload a.key = .ok ()

def Carries (link : Link) : Prop :=
  ∃ extensions, link.cert.tbsCertificate.extensions = some extensions ∧
    ((findExtension extensions keyAttestationOid).isSome ∨
      ((findExtension extensions appleDeviceAttestationKeyUsageProperties).isSome ∧
        (findExtension extensions appleDeviceAttestationDeviceOsInformation).isSome ∧
        (findExtension extensions appleDeviceAttestationNonce).isSome))

inductive Chained (L : Libraries) (roots : List PublicKey) : Option PublicKey → List Link → Prop
  | nil (prev : Option PublicKey) : Chained L roots prev []
  | cons {prev : Option PublicKey} {link : Link} {links : List Link}
      (head : validateLink L roots prev link = .ok ())
      (tail : Chained L roots (some link.key) links) : Chained L roots prev (link :: links)

variable {links : List Link} {acc acc' : Progress}

theorem Chained.isChain {prev : Option PublicKey} (h : Chained L roots prev links) :
    links.IsChain (Signs L) := by
  induction h with
  | nil prev => exact .nil
  | cons ha tail ih =>
    cases tail with
    | nil => exact .singleton _
    | cons he' tail' => exact .cons_cons he' ih

structure Checked (L : Libraries) (roots : List PublicKey) (acc : Progress)
    (chain : List CertificateInput) (acc' : Progress) (links : List Link) : Prop where
  parsed : List.Forall₂ (fun data link => parseLink L data.val = .ok link) chain links
  chained : Chained L roots (acc.last.map (·.key)) links
  last : acc'.last = links.getLast?.or acc.last

theorem checkCertificate_ok {data : CertificateInput}
    (h : checkCertificate L roots acc data = .ok acc') :
    ∃ link, parseLink L data.val = .ok link ∧
      validateLink L roots (acc.last.map (·.key)) link = .ok () ∧ acc'.last = some link := by
  simp only [checkCertificate, ok_iff] at h
  obtain ⟨link, hl, _, hv, id, -, rfl⟩ := h
  exact ⟨link, hl, hv, rfl⟩

theorem foldlM_checkCertificate {ch : List CertificateInput}
    (h : ch.foldlM (checkCertificate L roots) acc = .ok acc') :
    ∃ links, Checked L roots acc ch acc' links := by
  induction ch generalizing acc with
  | nil =>
    rw [List.foldlM_nil, pure_eq_ok] at h
    subst h
    exact ⟨[], .nil, .nil _, rfl⟩
  | cons data ch ih =>
    rw [List.foldlM_cons, bind_eq_ok] at h
    obtain ⟨acc₁, hf, hr⟩ := h
    obtain ⟨link, hn, hv, hl⟩ := checkCertificate_ok hf
    obtain ⟨links, hc⟩ := ih hr
    have hh := hc.chained
    rw [hl] at hh
    refine ⟨link :: links, .cons hn hc.parsed, .cons hv hh, ?_⟩
    rw [hc.last, hl]
    cases links with
    | nil => rfl
    | cons b bs =>
      rw [List.getLast?_cons_cons]
      cases hli : (b :: bs).getLast? with
      | none => simp at hli
      | some l => rfl

theorem validateCertificateChain_ok {ch : CertificateChainInput} {ids : List CertificateId}
    {cert : TBSCertificate} {key : PublicKey}
    (h : validateCertificateChain L ch = .ok (ids, cert, key)) :
    ∃ links last, List.Forall₂ (fun data link => parseLink L data.val = .ok link) ch.val links ∧
      links.IsChain (Signs L) ∧ links.getLast? = some last ∧ last.cert.tbsCertificate = cert ∧
      last.key = key := by
  simp only [validateCertificateChain, ok_iff, Prod.mk.injEq] at h
  obtain ⟨roots, -, acc, hf, last, hl, -, hce, hk⟩ := h
  obtain ⟨links, hc⟩ := foldlM_checkCertificate hf
  refine ⟨links, last, hc.parsed, hc.chained.isChain, ?_, hce, hk⟩
  rw [← hl, hc.last, Option.or_none]

theorem exists_signs_of_mem_dropLast (h : links.IsChain (Signs L)) {a : Link}
    (ha : a ∈ links.dropLast) : ∃ b ∈ links, Signs L a b := by
  induction links with
  | nil => cases ha
  | cons c links ih =>
    cases links with
    | nil => cases ha
    | cons d links =>
      rw [List.isChain_cons_cons] at h
      rw [List.dropLast_cons_cons, List.mem_cons] at ha
      rcases ha with rfl | ha
      · exact ⟨d, List.mem_cons_of_mem _ (List.mem_cons_self ..), h.1⟩
      · obtain ⟨b, hb, hs⟩ := ih h.2 ha
        exact ⟨b, List.mem_cons_of_mem _ hb, hs⟩

end Chain

/-- An accepted chain returns the content of its last certificate, and each certificate of it signed
the next. Only if an attested key signed a certificate does one before the last carry an
attestation. -/
theorem content_of_last_of_accepted {L : Libraries} {A : Type} {T : Config L A} {source : A}
    {chain : CertificateChainInput} {attestation : Attestation T}
    (h : validateAndExtractAttestation T source chain = .ok attestation) :
    ∃ links last parsedAttestation,
      List.Forall₂ (fun data link => parseLink L data.val = .ok link) chain.val links ∧
      links.IsChain (Signs L) ∧ links.getLast? = some last ∧
      extractAttestation L last.cert.tbsCertificate.extensions = .ok parsedAttestation ∧
      T.tryIntoBounded parsedAttestation = some attestation.content ∧
      ((∀ a ∈ links, ∀ b ∈ links, Carries a → ¬ Signs L a b) →
        ∀ a ∈ links.dropLast, ¬ Carries a) := by
  simp only [validateAndExtractAttestation, bind_eq_ok, pure_eq_ok, mapError_eq_ok] at h
  obtain ⟨⟨ids, cert, key⟩, hc, _, _, parsedAttestation, hx, _, _, _, _, content, ho, rfl⟩ := h
  obtain ⟨links, last, hp, hs, hla, rfl, hk⟩ := validateCertificateChain_ok hc
  refine ⟨links, last, parsedAttestation, hp, hs, hla, hx, okOr_eq_ok.mp ho, ?_⟩
  intro hl a ha hca
  obtain ⟨b, hb, hab⟩ := exists_signs_of_mem_dropLast hs ha
  exact hl a (List.dropLast_subset links ha) b hb hca hab

section Sample

def sampleInfo (key : Bytes) : SubjectPublicKeyInfo := ⟨⟨ecdsaPbk, some []⟩, key⟩

def sampleCertificate (signer key : UInt8) (extensions : Option (List Extension)) : Certificate where
  tbsCertificate :=
    { serialNumber := [key]
      signature := ⟨ecdsaWithSha256Algorithm, none⟩
      issuer := [signer]
      notBefore := 0
      notAfter := 1000
      subjectPublicKeyInfo := sampleInfo [key]
      extensions := extensions }
  signatureAlgorithm := ⟨ecdsaWithSha256Algorithm, none⟩
  signatureValue := [signer, key]

/-- A root `1`, a device key `2` that the root attested, and a key `3` that the device key signed.
A signature is the key followed by the payload. -/
def sample : Libraries where
  parseCert := fun data => match data with
    | [1] => some (sampleCertificate 1 1 none)
    | [2] => some (sampleCertificate 1 2 (some [⟨keyAttestationOid, [7]⟩]))
    | [3] => some (sampleCertificate 2 3 (some [⟨keyAttestationOid, [8]⟩]))
    | _ => none
  parseCertPayload := some
  parseSubjectPublicKeyInfo := fun data => some (sampleInfo data)
  parseObjectIdentifier := fun _ => some curveP256
  parseRsaPbk := fun _ => none
  writeName := some
  verifyingKeyFromSec1Bytes := some
  fieldElementFromBeSlice := fun _ => none
  verifyRsa := fun _ _ _ => false
  p256SignatureFromDer := some
  verifyP256 := fun key payload signature => signature = key ++ payload
  p384SignatureFromDer := fun _ => none
  verifyPrehashed := fun _ _ _ _ => false
  sha256 := id
  sha384 := id
  blake2256 := id
  Description := Bytes
  peekAttestationVersion := fun _ => some 1
  parseKeyDescriptionV1 := some
  parseKeyDescriptionV2 := fun _ => none
  parseKeyDescriptionV3 := fun _ => none
  parseKeyDescriptionV4 := fun _ => none
  parseKeyDescriptionKeyMint := fun _ => none
  DeviceData := Unit
  parseKeyUsageProperties := fun _ => none
  parseDeviceOsInformation := fun _ => none
  parseNonce := fun _ => none
  googleRootPubKey := [1]
  googleP384RootPubKey := [101]
  appleRootPubKey := [102]

def sampleRuntime : Config sample UInt8 where
  encodeAccount := fun key => [key]
  Content := Bytes
  tryIntoBounded := fun attestation => match attestation with
    | .keyDescription (.v1 d) => some d
    | _ => none

def sampleInput (n : UInt8) : CertificateInput := ⟨[n], Nat.le_add_left 1 2999⟩

def genuineChain : CertificateChainInput := ⟨[sampleInput 1, sampleInput 2], by decide⟩

def forgedChain : CertificateChainInput :=
  ⟨[sampleInput 1, sampleInput 2, sampleInput 3], by decide⟩

theorem content_of_last_genuineChain : ∃ attestation : Attestation sampleRuntime,
      validateAndExtractAttestation sampleRuntime 2 genuineChain = .ok attestation ∧
      ∃ links last parsedAttestation,
        List.Forall₂ (fun data link => parseLink sample data.val = .ok link) genuineChain.val links ∧
        links.IsChain (Signs sample) ∧ links.getLast? = some last ∧
        extractAttestation sample last.cert.tbsCertificate.extensions = .ok parsedAttestation ∧
        sampleRuntime.tryIntoBounded parsedAttestation = some attestation.content ∧
        ((∀ a ∈ links, ∀ b ∈ links, Carries a → ¬ Signs sample a b) →
          ∀ a ∈ links.dropLast, ¬ Carries a) := by
  have ha : validateAndExtractAttestation sampleRuntime 2 genuineChain =
      .ok ⟨⟨[(⟨[1], by decide⟩, ⟨[1], by decide⟩), (⟨[1], by decide⟩, ⟨[2], by decide⟩)],
        by decide⟩, [7], ⟨0, 1000⟩⟩ := rfl
  exact ⟨_, ha, content_of_last_of_accepted ha⟩

/-- The chain that a device key extends is accepted with an invented content, though the certificate
of the device key carries an attestation. -/
theorem forgedChain_accepted :
    (validateAndExtractAttestation sampleRuntime 3 forgedChain).toOption.map (·.content) =
        some [8] ∧
      ∃ link, parseLink sample (sampleInput 2).val = .ok link ∧ Carries link := by
  refine ⟨rfl, _, rfl, ?_⟩
  exact ⟨_, rfl, .inl rfl⟩

end Sample

end Acurast.KeyAttestation
