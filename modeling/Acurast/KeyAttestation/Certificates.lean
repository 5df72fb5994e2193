import Mathlib.Data.Int.Notation
import Acurast.Base.Outcome
import Acurast.Common.Message

/-! Certificate chains of attested device keys. The ASN.1 parser, the curves, the hashes and the
signature schemes are parameters; slices and copies that can go out of range are written out. -/

namespace Acurast.KeyAttestation

open Base

abbrev ObjectIdentifier := List ℕ

def keyAttestationOid : ObjectIdentifier := [1, 3, 6, 1, 4, 1, 11129, 2, 1, 17]

def appleDeviceAttestationKeyUsageProperties : ObjectIdentifier := [1, 2, 840, 113635, 100, 8, 5]

def appleDeviceAttestationDeviceOsInformation : ObjectIdentifier := [1, 2, 840, 113635, 100, 8, 7]

def appleDeviceAttestationNonce : ObjectIdentifier := [1, 2, 840, 113635, 100, 8, 2]

def rsaAlgorithm : ObjectIdentifier := [1, 2, 840, 113549, 1, 1, 11]

def ecdsaWithSha256Algorithm : ObjectIdentifier := [1, 2, 840, 10045, 4, 3, 2]

def ecdsaWithSha384Algorithm : ObjectIdentifier := [1, 2, 840, 10045, 4, 3, 3]

def rsaPbk : ObjectIdentifier := [1, 2, 840, 113549, 1, 1, 1]

def ecdsaPbk : ObjectIdentifier := [1, 2, 840, 10045, 2, 1]

def curveP256 : ObjectIdentifier := [1, 2, 840, 10045, 3, 1, 7]

def curveP384 : ObjectIdentifier := [1, 3, 132, 0, 34]

structure AlgorithmIdentifier where
  algorithm : ObjectIdentifier
  /-- The full data of the element that holds the parameters. -/
  parameters : Option Bytes
  deriving DecidableEq

structure SubjectPublicKeyInfo where
  algorithm : AlgorithmIdentifier
  subjectPublicKey : Bytes
  deriving DecidableEq

structure Extension where
  extnId : ObjectIdentifier
  extnValue : Bytes
  deriving DecidableEq

abbrev Name := Bytes

structure TBSCertificate where
  serialNumber : Bytes
  signature : AlgorithmIdentifier
  issuer : Name
  notBefore : ℕ
  notAfter : ℕ
  subjectPublicKeyInfo : SubjectPublicKeyInfo
  extensions : Option (List Extension)
  deriving DecidableEq

structure Certificate where
  tbsCertificate : TBSCertificate
  signatureAlgorithm : AlgorithmIdentifier
  signatureValue : Bytes
  deriving DecidableEq

structure RSAPbk where
  exponent : ℕ
  modulus : ℕ
  deriving DecidableEq

/-- A P-256 key is its compressed encoding. -/
inductive ECDSACurve where
  | curveP256 (verifyingKey : Bytes)
  | curveP384 (x y : ℕ)
  deriving DecidableEq

inductive PublicKey where
  | rsa (pbk : RSAPbk)
  | ecdsa (curve : ECDSACurve)
  deriving DecidableEq

inductive ValidationError where
  | chainTooShort | extensionMissing | parseExtension | unsupportedAttestationVersion (version : ℤ)
  | parseP256PublicKey | parseP384PublicKey | missingECDSAAlgorithmTyp | missingPublicKey
  | invalidSignatureEncoding | invalidSignature | unsupportedSignatureAlgorithm
  | unsupportedPublicKeyAlgorithm | invalidIssuer | signatureMismatch
  /-- A slice or a copy out of range. -/
  | panicked
  deriving DecidableEq

abbrev Result (α : Type) := Except ValidationError α

/-- The libraries the code calls, and the files with the trusted root keys. -/
structure Libraries where
  parseCert : Bytes → Option Certificate
  parseCertPayload : Bytes → Option Bytes
  parseSubjectPublicKeyInfo : Bytes → Option SubjectPublicKeyInfo
  parseObjectIdentifier : Bytes → Option ObjectIdentifier
  parseRsaPbk : Bytes → Option RSAPbk
  writeName : Name → Option Bytes
  verifyingKeyFromSec1Bytes : Bytes → Option Bytes
  fieldElementFromBeSlice : Bytes → Option ℕ
  /-- A PKCS #1 v1.5 signature over the SHA-256 hash of the payload. -/
  verifyRsa : RSAPbk → Bytes → Bytes → Bool
  p256SignatureFromDer : Bytes → Option Bytes
  verifyP256 : Bytes → Bytes → Bytes → Bool
  p384SignatureFromDer : Bytes → Option Bytes
  verifyPrehashed : ℕ → ℕ → Bytes → Bytes → Bool
  sha256 : Bytes → Bytes
  sha384 : Bytes → Bytes
  blake2256 : Bytes → Bytes
  Description : Type
  peekAttestationVersion : Bytes → Option ℤ
  parseKeyDescriptionV1 : Bytes → Option Description
  parseKeyDescriptionV2 : Bytes → Option Description
  parseKeyDescriptionV3 : Bytes → Option Description
  parseKeyDescriptionV4 : Bytes → Option Description
  parseKeyDescriptionKeyMint : Bytes → Option Description
  DeviceData : Type
  parseKeyUsageProperties : Bytes → Option DeviceData
  parseDeviceOsInformation : Bytes → Option DeviceData
  parseNonce : Bytes → Option DeviceData
  googleRootPubKey : Bytes
  googleP384RootPubKey : Bytes
  appleRootPubKey : Bytes

variable (L : Libraries)

inductive KeyDescription where
  | v1 (d : L.Description) | v2 (d : L.Description) | v3 (d : L.Description) | v4 (d : L.Description)
  | v100 (d : L.Description) | v200 (d : L.Description) | v300 (d : L.Description)

structure DeviceAttestation where
  keyUsageProperties : L.DeviceData
  deviceOsInformation : L.DeviceData
  nonce : L.DeviceData

inductive ParsedAttestation where
  | keyDescription (d : KeyDescription L)
  | deviceAttestation (d : DeviceAttestation L)

def parsed {α : Type} (o : Option α) : Result α := okOr o .parseExtension

def findExtension (extensions : List Extension) (oid : ObjectIdentifier) : Option Extension :=
  extensions.find? (·.extnId = oid)

def parseKeyDescription (extension : Extension) : Result (KeyDescription L) := do
  let version ← parsed (L.peekAttestationVersion extension.extnValue)
  if version = 1 then .v1 <$> parsed (L.parseKeyDescriptionV1 extension.extnValue)
  else if version = 2 then .v2 <$> parsed (L.parseKeyDescriptionV2 extension.extnValue)
  else if version = 3 then .v3 <$> parsed (L.parseKeyDescriptionV3 extension.extnValue)
  else if version = 4 then .v4 <$> parsed (L.parseKeyDescriptionV4 extension.extnValue)
  else if version = 100 then .v100 <$> parsed (L.parseKeyDescriptionKeyMint extension.extnValue)
  else if version = 200 then .v200 <$> parsed (L.parseKeyDescriptionKeyMint extension.extnValue)
  else if version = 300 then .v300 <$> parsed (L.parseKeyDescriptionKeyMint extension.extnValue)
  else throw (.unsupportedAttestationVersion version)

def parseAppleAttestation (extensions : List Extension) : Result (DeviceAttestation L) := do
  let usage ← okOr (findExtension extensions appleDeviceAttestationKeyUsageProperties)
    .extensionMissing
  let keyUsageProperties ← parsed (L.parseKeyUsageProperties usage.extnValue)
  let os ← okOr (findExtension extensions appleDeviceAttestationDeviceOsInformation)
    .extensionMissing
  let deviceOsInformation ← parsed (L.parseDeviceOsInformation os.extnValue)
  let nonce ← okOr (findExtension extensions appleDeviceAttestationNonce) .extensionMissing
  let nonce ← parsed (L.parseNonce nonce.extnValue)
  pure ⟨keyUsageProperties, deviceOsInformation, nonce⟩

def extractAttestation (extensions : Option (List Extension)) : Result (ParsedAttestation L) := do
  let extensions ← okOr extensions .extensionMissing
  match findExtension extensions keyAttestationOid with
  | some extension => .keyDescription <$> parseKeyDescription L extension
  | none => .deviceAttestation <$> parseAppleAttestation L extensions

def parseP384 (key : Bytes) : Result PublicKey := do
  ensure (1 ≤ key.length) .panicked
  let encoded := key.drop 1
  let middle := encoded.length / 2
  let x ← okOr (L.fieldElementFromBeSlice (encoded.take middle)) .parseP384PublicKey
  let y ← okOr (L.fieldElementFromBeSlice (encoded.drop middle)) .parseP384PublicKey
  pure (.ecdsa (.curveP384 x y))

def parseEcdsa (info : SubjectPublicKeyInfo) : Result PublicKey := do
  let parameters ← okOr info.algorithm.parameters .missingECDSAAlgorithmTyp
  let typ ← parsed (L.parseObjectIdentifier parameters)
  if typ = curveP256 then do
    let key ← okOr (L.verifyingKeyFromSec1Bytes info.subjectPublicKey) .parseP256PublicKey
    pure (.ecdsa (.curveP256 key))
  else if typ = curveP384 then parseP384 L info.subjectPublicKey
  else throw .unsupportedSignatureAlgorithm

def PublicKey.parse (info : SubjectPublicKeyInfo) : Result PublicKey :=
  if info.algorithm.algorithm = rsaPbk then
    .rsa <$> parsed (L.parseRsaPbk info.subjectPublicKey)
  else if info.algorithm.algorithm = ecdsaPbk then parseEcdsa L info
  else throw .unsupportedPublicKeyAlgorithm

def validateRsa (payload signature : Bytes) (pbk : RSAPbk) : Result Unit :=
  ensure (L.verifyRsa pbk payload signature = true) .invalidSignature

def padHash (hashed : Bytes) : Result Bytes :=
  if hashed.length = 32 then pure (List.replicate 16 0 ++ hashed)
  else do
    ensure (hashed.length = 48) .panicked
    pure hashed

def validateEcdsa (digest : Bytes → Bytes) (payload signature : Bytes) : ECDSACurve → Result Unit
  | .curveP256 verifyingKey => do
    let signature ← okOr (L.p256SignatureFromDer signature) .invalidSignatureEncoding
    ensure (L.verifyP256 verifyingKey payload signature = true) .invalidSignature
  | .curveP384 x y => do
    let signature ← okOr (L.p384SignatureFromDer signature) .invalidSignatureEncoding
    let padded ← padHash (digest payload)
    ensure (L.verifyPrehashed x y padded signature = true) .invalidSignature

def validateRsaKey (cert : Certificate) (payload : Bytes) : PublicKey → Result Unit
  | .rsa pbk => validateRsa L payload cert.signatureValue pbk
  | .ecdsa _ => throw .unsupportedPublicKeyAlgorithm

def validateEcdsaKey (digest : Bytes → Bytes) (cert : Certificate) (payload : Bytes) :
    PublicKey → Result Unit
  | .ecdsa curve => validateEcdsa L digest payload cert.signatureValue curve
  | .rsa _ => throw .unsupportedPublicKeyAlgorithm

def validate (cert : Certificate) (payload : Bytes) (pbk : PublicKey) : Result Unit := do
  ensure (cert.signatureAlgorithm.algorithm = cert.tbsCertificate.signature.algorithm)
    .signatureMismatch
  if cert.signatureAlgorithm.algorithm = rsaAlgorithm then validateRsaKey L cert payload pbk
  else if cert.signatureAlgorithm.algorithm = ecdsaWithSha256Algorithm then
    validateEcdsaKey L L.sha256 cert payload pbk
  else if cert.signatureAlgorithm.algorithm = ecdsaWithSha384Algorithm then
    validateEcdsaKey L L.sha384 cert payload pbk
  else throw .unsupportedSignatureAlgorithm

def certMaxLength : ℕ := 3000

def chainMaxLength : ℕ := 5

abbrev CertificateInput := BoundedVec UInt8 certMaxLength

abbrev CertificateChainInput := BoundedVec CertificateInput chainMaxLength

abbrev CertificateId := Bytes × Bytes

def uniqueId (issuer : Name) (serialNumber : Bytes) : Result CertificateId := do
  let issuerEncoded ← okOr (L.writeName issuer) .invalidIssuer
  pure (issuerEncoded, serialNumber)

def parseRootKey (key : Bytes) : Result PublicKey := do
  let info ← parsed (L.parseSubjectPublicKeyInfo key)
  PublicKey.parse L info

def trustedRoots : Result (List PublicKey) :=
  [L.googleRootPubKey, L.googleP384RootPubKey, L.appleRootPubKey].mapM (parseRootKey L)

structure Link where
  cert : Certificate
  payload : Bytes
  key : PublicKey
  deriving DecidableEq

def parseLink (data : Bytes) : Result Link := do
  let cert ← parsed (L.parseCert data)
  let payload ← parsed (L.parseCertPayload data)
  let key ← PublicKey.parse L cert.tbsCertificate.subjectPublicKeyInfo
  pure ⟨cert, payload, key⟩

def validateByRoot (link : Link) : List PublicKey → Result Unit
  | [] => throw .invalidSignature
  | root :: roots =>
    match validate L link.cert link.payload root with
    | .ok _ => pure ()
    | .error .invalidSignature => validateByRoot link roots
    | .error .unsupportedPublicKeyAlgorithm => validateByRoot link roots
    | .error e => throw e

def validateFirst (roots : List PublicKey) (link : Link) : Result Unit :=
  if link.key ∈ roots then validate L link.cert link.payload link.key
  else validateByRoot L link roots

def validateLink (roots : List PublicKey) (prevPbk : Option PublicKey) (link : Link) :
    Result Unit :=
  match prevPbk with
  | some pbk => validate L link.cert link.payload pbk
  | none => validateFirst L roots link

structure Progress where
  last : Option Link
  certIds : List CertificateId

def checkCertificate (roots : List PublicKey) (acc : Progress) (data : CertificateInput) :
    Result Progress := do
  let link ← parseLink L data.val
  validateLink L roots (acc.last.map (·.key)) link
  let id ← uniqueId L link.cert.tbsCertificate.issuer link.cert.tbsCertificate.serialNumber
  pure ⟨some link, acc.certIds ++ [id]⟩

def validateCertificateChain (chain : CertificateChainInput) :
    Result (List CertificateId × TBSCertificate × PublicKey) := do
  let roots ← trustedRoots L
  let acc ← chain.val.foldlM (checkCertificate L roots) ⟨none, []⟩
  let last ← okOr acc.last .chainTooShort
  pure (acc.certIds, last.cert.tbsCertificate, last.key)

end Acurast.KeyAttestation
