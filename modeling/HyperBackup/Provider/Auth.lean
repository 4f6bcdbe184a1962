import HyperBackup.Lib.Base64
import HyperBackup.Lib.Hex
import HyperBackup.Lib.Path
import HyperBackup.Lib.TextFields
import HyperBackup.Provider.BaDouProvider

/-!
# Credentials

A request carries its token and the version of the protocol as metadata.  The
token consists of a header, its claims and a signature, all in base 64.  The
server reads the signature and compares it with its own, reads the claims, and
refuses them once they have expired; it never looks at the header.  What a
caller may do is then a matter of the role in the claims.

HMAC and the JSON of the claims come from other crates and are parameters.
-/

namespace HyperBackup
namespace Provider
namespace Auth

open Lib Badou

structure JwtClaims where
  sub : String
  role : String
  exp : UInt64
  iat : UInt64
deriving DecidableEq

/-- What the server takes from other crates to check a token. -/
structure Crypto where
  hmacSha256 : Bytes → Bytes → Bytes
  claimsToVec : JwtClaims → Bytes
  claimsFromSlice : Bytes → Except String JwtClaims

structure AuthConfig where
  jwtSecret : Bytes

/-- Named values; an earlier one hides the later ones of its name. -/
abbrev Metadata : Type := List (String × Bytes)

def metadataVersion : String :=
  "x-hbop-version"

def metadataAuth : String :=
  "authorization"

def supportedVersions : List Nat :=
  [1]

def Role.fromRoleStr : String → Option Role
  | "admin" => some .admin
  | "operator" => some .operator
  | "viewer" => some .viewer
  | _ => none

def unauthenticated (message : String) : Status :=
  ⟨.unauthenticated, message⟩

def invalidArgument (message : String) : Status :=
  ⟨.invalidArgument, message⟩

def permissionDenied (message : String) : Status :=
  ⟨.permissionDenied, message⟩

section Tokens

variable (crypto : Crypto) (now : UInt64)

def encodeText (bytes : Bytes) : List Char :=
  Base64.encode Base64.urlSafe bytes

def decodeText (text : List Char) : Option Bytes :=
  Base64.decode Base64.urlSafe text

/-- The bytes that are signed. -/
def signingInput (header payload : List Char) : Bytes :=
  Hex.utf8 (String.ofList (header ++ '.' :: payload))

/-- The claims in a payload, unless they have expired. -/
def readClaims (payload : Bytes) : Except Status JwtClaims :=
  match crypto.claimsFromSlice payload with
  | .error e => .error (unauthenticated ("AUTH_FAILED: invalid JWT claims: " ++ e))
  | .ok claims =>
      if claims.exp < now then .error (unauthenticated "AUTH_FAILED: JWT expired")
      else .ok claims

def validateJwt (config : AuthConfig) (token : String) : Except Status JwtClaims :=
  match token.toList.splitOn '.' with
  | [header, payload, signature] =>
      match decodeText signature with
      | none => .error (unauthenticated "AUTH_FAILED: invalid JWT signature encoding")
      | some expectedSig =>
          if crypto.hmacSha256 config.jwtSecret (signingInput header payload) ≠
              expectedSig then
            .error (unauthenticated "AUTH_FAILED: JWT signature verification failed")
          else
            match decodeText payload with
            | none => .error (unauthenticated "AUTH_FAILED: invalid JWT payload encoding")
            | some payloadBytes => readClaims crypto now payloadBytes
  | _ => .error (unauthenticated "AUTH_FAILED: invalid JWT format")

/-- A token with a header that may be any text. -/
def tokenOf (secret : Bytes) (header : List Char) (payload : Bytes) : List Char :=
  header ++ '.' :: (encodeText payload ++ '.' ::
    encodeText (crypto.hmacSha256 secret (signingInput header (encodeText payload))))

def jwtHeader : Bytes :=
  Hex.utf8 "\x7b\"alg\":\"HS256\",\"typ\":\"JWT\"\x7d"

def generateJwt (secret : Bytes) (claims : JwtClaims) : String :=
  String.ofList (tokenOf crypto secret (encodeText jwtHeader) (crypto.claimsToVec claims))

end Tokens

section Requests

variable (crypto : Crypto) (now : UInt64)

def Metadata.get (metadata : Metadata) (key : String) : Option Bytes :=
  (metadata.find? fun entry => entry.1 = key).map Prod.snd

/-- The text of a value all of whose bytes print. -/
def toStr (value : Bytes) : Option String :=
  if value.all fun b => (32 ≤ b.toNat && b.toNat < 127) || b.toNat == 9 then
    some (String.ofList (value.map fun b => Char.ofNat b.toNat))
  else none

/-- The text without the given beginning. -/
def stripPrefix (start text : String) : Option String :=
  if start.toList <+: text.toList then
    some (String.ofList (text.toList.drop start.toList.length))
  else none

def extractAuth (config : AuthConfig) (metadata : Metadata) : Except Status JwtClaims :=
  match metadata.get metadataAuth with
  | none => .error (unauthenticated "AUTH_FAILED: missing authorization header")
  | some value =>
      match toStr value with
      | none =>
          .error (unauthenticated "AUTH_FAILED: invalid authorization header encoding")
      | some authHeader =>
          match stripPrefix "Bearer " authHeader with
          | none => .error (unauthenticated "AUTH_FAILED: expected Bearer token")
          | some token => validateJwt crypto now config token

def extractVersion (metadata : Metadata) : Except Status Nat :=
  match metadata.get metadataVersion with
  | none => .error (invalidArgument "VERSION_MISMATCH: missing x-hbop-version header")
  | some value =>
      match toStr value with
      | none =>
          .error (invalidArgument "VERSION_MISMATCH: invalid version header encoding")
      | some text =>
          match TextFields.parseUnsigned (2 ^ 32) text.toList with
          | none =>
              .error (invalidArgument ("VERSION_MISMATCH: invalid version: " ++ text))
          | some version =>
              if version ∈ supportedVersions then .ok version
              else
                .error (invalidArgument ("VERSION_MISMATCH: unsupported version " ++
                  toString version ++ ", supported: [1]"))

variable (config : AuthConfig) (metadata : Metadata)

def requireRole (allowed : Role → Bool) (message : String) :
    Except Status (JwtClaims × Nat) :=
  match extractAuth crypto now config metadata with
  | .error e => .error e
  | .ok claims =>
      match extractVersion metadata with
      | .error e => .error e
      | .ok version =>
          match Role.fromRoleStr claims.role with
          | none => .error (permissionDenied "FORBIDDEN: unknown role")
          | some role =>
              if allowed role then .ok (claims, version)
              else .error (permissionDenied message)

def requireWrite : Except Status (JwtClaims × Nat) :=
  requireRole crypto now config metadata Role.canWrite
    "FORBIDDEN: write permission required"

def requireAdmin : Except Status (JwtClaims × Nat) :=
  requireRole crypto now config metadata Role.canAdmin
    "FORBIDDEN: admin permission required"

def requireAuth : Except Status (JwtClaims × Nat) :=
  match extractAuth crypto now config metadata with
  | .error e => .error e
  | .ok claims =>
      match extractVersion metadata with
      | .error e => .error e
      | .ok version => .ok (claims, version)

/-- A text as a value of the metadata. -/
def metadataValue (text : String) : Except String Bytes :=
  if (Hex.utf8 text).all fun b => (32 ≤ b.toNat && b.toNat != 127) || b.toNat == 9 then
    .ok (Hex.utf8 text)
  else .error "failed to parse metadata value"

/-- The metadata of every request of a client with a token. -/
def connect (jwtToken : String) : Except BadouClientError Metadata :=
  match metadataValue ("Bearer " ++ jwtToken) with
  | .error e => .error (.invalidEndpoint e)
  | .ok authHeader =>
      .ok [(metadataAuth, authHeader), (metadataVersion, Hex.utf8 "1")]

end Requests

section Acceptance

variable {crypto : Crypto} {now : UInt64} {config : AuthConfig}

theorem splitOn_eq_triple_iff {text header payload signature : List Char} :
    text.splitOn '.' = [header, payload, signature] ↔
      text = header ++ '.' :: (payload ++ '.' :: signature) ∧
        '.' ∉ header ∧ '.' ∉ payload ∧ '.' ∉ signature := by
  have hparts : ['.'].intercalate [header, payload, signature] =
      header ++ '.' :: (payload ++ '.' :: signature) := by
    simp [List.intercalate]
  constructor
  · intro h
    have htext : ['.'].intercalate (text.splitOn '.') = text := List.intercalate_splitOn '.'
    have hsep := Path.not_mem_of_mem_splitOn '.' text
    rw [h] at htext hsep
    exact ⟨htext.symm.trans hparts, hsep _ (by simp), hsep _ (by simp), hsep _ (by simp)⟩
  · rintro ⟨rfl, hheader, hpayload, hsignature⟩
    rw [← hparts]
    refine List.splitOn_intercalate '.' ?_ (by simp)
    simp only [List.mem_cons, List.not_mem_nil, or_false]
    rintro part (rfl | rfl | rfl)
    · exact hheader
    · exact hpayload
    · exact hsignature

theorem decodeText_encodeText (bytes : Bytes) : decodeText (encodeText bytes) = some bytes :=
  Base64.decode_encode Base64.urlSafe bytes

theorem dot_notMem_encodeText (bytes : Bytes) : '.' ∉ encodeText bytes := by
  intro h
  exact absurd (Base64.mem_digits_of_mem_encode h) (by decide)

theorem readClaims_eq_ok_iff {payload : Bytes} {claims : JwtClaims} :
    readClaims crypto now payload = .ok claims ↔
      crypto.claimsFromSlice payload = .ok claims ∧ now ≤ claims.exp := by
  unfold readClaims
  cases crypto.claimsFromSlice payload with
  | error e => simp
  | ok claims' =>
      simp only [Except.ok.injEq, ← UInt64.not_lt]
      by_cases hexp : claims'.exp < now
      · rw [if_pos hexp]
        refine iff_of_false (by simp) ?_
        rintro ⟨rfl, hnot⟩
        exact hnot hexp
      · rw [if_neg hexp, Except.ok.injEq]
        constructor
        · rintro rfl
          exact ⟨rfl, hexp⟩
        · exact And.left

/-- What the server makes of a token that was signed with some secret. -/
theorem validateJwt_tokenOf {secret payload : Bytes} {header : List Char}
    (hheader : '.' ∉ header) :
    validateJwt crypto now config (String.ofList (tokenOf crypto secret header payload)) =
      if crypto.hmacSha256 config.jwtSecret (signingInput header (encodeText payload)) ≠
          crypto.hmacSha256 secret (signingInput header (encodeText payload)) then
        .error (unauthenticated "AUTH_FAILED: JWT signature verification failed")
      else readClaims crypto now payload := by
  have hparts := splitOn_eq_triple_iff.mpr ⟨rfl, hheader, dot_notMem_encodeText payload,
    dot_notMem_encodeText
      (crypto.hmacSha256 secret (signingInput header (encodeText payload)))⟩
  simp only [validateJwt, String.toList_ofList, tokenOf, hparts, decodeText_encodeText]

/-- An accepted token is signed with the secret, over some header. -/
theorem exists_of_validateJwt {token : String} {claims : JwtClaims}
    (h : validateJwt crypto now config token = .ok claims) :
    ∃ header payload, '.' ∉ header ∧
      token.toList = tokenOf crypto config.jwtSecret header payload ∧
      crypto.claimsFromSlice payload = .ok claims ∧ now ≤ claims.exp := by
  unfold validateJwt at h
  split at h
  · next header payload signature hparts =>
      obtain ⟨htoken, hheader, -, -⟩ := splitOn_eq_triple_iff.mp hparts
      split at h
      · cases h
      · next expectedSig hsig =>
          split at h
          · cases h
          · next hmac =>
              split at h
              · cases h
              · next payloadBytes hpayload =>
                  have hsig' := Base64.decode_eq_some_iff.mp hsig
                  have hpayload' := Base64.decode_eq_some_iff.mp hpayload
                  refine ⟨header, payloadBytes, hheader, ?_, readClaims_eq_ok_iff.mp h⟩
                  rw [htoken, hsig', ← not_ne_iff.mp hmac, tokenOf]
                  simp only [encodeText, ← hpayload']
  · cases h

/-- A token is accepted exactly if it is signed with the secret, over any header,
and carries claims that have not expired. -/
theorem validateJwt_eq_ok_iff {token : String} {claims : JwtClaims} :
    validateJwt crypto now config token = .ok claims ↔
      ∃ header payload, '.' ∉ header ∧
        token.toList = tokenOf crypto config.jwtSecret header payload ∧
        crypto.claimsFromSlice payload = .ok claims ∧ now ≤ claims.exp := by
  constructor
  · exact exists_of_validateJwt
  · rintro ⟨header, payload, hheader, htoken, hclaims⟩
    have htoken' : token = String.ofList (tokenOf crypto config.jwtSecret header payload) := by
      rw [← htoken, String.ofList_toList]
    rw [htoken', validateJwt_tokenOf hheader, if_neg (not_not_intro rfl)]
    exact readClaims_eq_ok_iff.mpr hclaims

end Acceptance

section Connecting

/-- The bytes that are signed for some claims. -/
def generatedInput (crypto : Crypto) (claims : JwtClaims) : Bytes :=
  signingInput (encodeText jwtHeader) (encodeText (crypto.claimsToVec claims))

/-- The claims have not expired, and both secrets sign them in the same way. -/
def Honoured (crypto : Crypto) (now : UInt64) (config : AuthConfig) (secret : Bytes)
    (claims : JwtClaims) : Prop :=
  crypto.hmacSha256 config.jwtSecret (generatedInput crypto claims) =
      crypto.hmacSha256 secret (generatedInput crypto claims) ∧
    now ≤ claims.exp

variable {crypto : Crypto} {now : UInt64} {config : AuthConfig} {metadata : Metadata}

def Prints (c : Char) : Prop :=
  32 ≤ c.toNat ∧ c.toNat < 127

instance (c : Char) : Decidable (Prints c) :=
  inferInstanceAs (Decidable (_ ∧ _))

theorem utf8EncodeChar_of_prints {c : Char} (h : Prints c) :
    String.utf8EncodeChar c = [UInt8.ofNat c.toNat] :=
  if_pos (Nat.le_of_lt h.2)

theorem toNat_byte_of_prints {c : Char} (h : Prints c) :
    (UInt8.ofNat c.toNat).toNat = c.toNat :=
  Base64.toNat_ofNat (h.2.trans (by decide))

theorem utf8_of_prints {text : List Char} (h : ∀ c ∈ text, Prints c) :
    Hex.utf8 (String.ofList text) = text.map fun c => UInt8.ofNat c.toNat := by
  unfold Hex.utf8
  rw [String.toList_ofList]
  induction text with
  | nil => rfl
  | cons c text ih =>
      rw [List.flatMap_cons, List.map_cons, utf8EncodeChar_of_prints (h c (by simp)),
        ih fun c hc => h c (List.mem_cons_of_mem _ hc)]
      rfl

/-- A text that prints can be a value, and is read as itself. -/
theorem metadataValue_of_prints {text : List Char} (h : ∀ c ∈ text, Prints c) :
    ∃ value, metadataValue (String.ofList text) = .ok value ∧
      toStr value = some (String.ofList text) := by
  have hbytes := utf8_of_prints h
  refine ⟨Hex.utf8 (String.ofList text), if_pos ?_, ?_⟩
  · rw [hbytes, List.all_map, List.all_eq_true]
    intro c hc
    obtain ⟨hlow, hhigh⟩ := h c hc
    have hbyte := toNat_byte_of_prints (h c hc)
    simp only [Function.comp_apply, hbyte, Bool.or_eq_true, Bool.and_eq_true,
      decide_eq_true_eq, bne_iff_ne]
    exact Or.inl ⟨hlow, by omega⟩
  · have hall : (Hex.utf8 (String.ofList text)).all
        (fun b => (32 ≤ b.toNat && b.toNat < 127) || b.toNat == 9) = true := by
      rw [hbytes, List.all_map, List.all_eq_true]
      intro c hc
      obtain ⟨hlow, hhigh⟩ := h c hc
      have hbyte := toNat_byte_of_prints (h c hc)
      simp only [Function.comp_apply, hbyte, Bool.or_eq_true, Bool.and_eq_true,
        decide_eq_true_eq]
      exact Or.inl ⟨hlow, hhigh⟩
    have hchars : (Hex.utf8 (String.ofList text)).map (fun b => Char.ofNat b.toNat) =
        text := by
      rw [hbytes, List.map_map]
      refine (List.map_congr_left fun c hc => ?_).trans (List.map_id text)
      rw [Function.comp_apply, toNat_byte_of_prints (h c hc), Char.ofNat_toNat, id]
    rw [toStr, if_pos hall, hchars]

theorem prints_encodeText (bytes : Bytes) : ∀ c ∈ encodeText bytes, Prints c := by
  have hdigits : (Base64.urlSafe.digits.all fun c => decide (Prints c)) = true := by
    decide +kernel
  intro c hc
  exact of_decide_eq_true
    (List.all_eq_true.mp hdigits c (Base64.mem_digits_of_mem_encode hc))

theorem prints_tokenOf {secret payload : Bytes} {header : List Char}
    (h : ∀ c ∈ header, Prints c) : ∀ c ∈ tokenOf crypto secret header payload, Prints c := by
  intro c hc
  simp only [tokenOf, List.mem_append, List.mem_cons] at hc
  rcases hc with hc | rfl | hc | rfl | hc
  · exact h c hc
  · decide
  · exact prints_encodeText _ c hc
  · decide
  · exact prints_encodeText _ c hc

theorem stripPrefix_append (start text : String) :
    stripPrefix start (start ++ text) = some text := by
  unfold stripPrefix
  rw [String.toList_append, if_pos (List.prefix_append _ _), List.drop_left,
    String.ofList_toList]

/-- The server gets the token of a client that connects, and its version. -/
theorem connect_of_prints {token : List Char} (h : ∀ c ∈ token, Prints c) :
    ∃ metadata, connect (String.ofList token) = .ok metadata ∧
      extractAuth crypto now config metadata =
        validateJwt crypto now config (String.ofList token) ∧
      extractVersion metadata = .ok 1 := by
  have hbearer : ∀ c ∈ "Bearer ".toList, Prints c := by
    have hall : ("Bearer ".toList.all fun c => decide (Prints c)) = true := by
      decide +kernel
    exact fun c hc => of_decide_eq_true (List.all_eq_true.mp hall c hc)
  have hheader : String.ofList ("Bearer ".toList ++ token) =
      "Bearer " ++ String.ofList token := by
    rw [String.ofList_append, String.ofList_toList]
  obtain ⟨value, hvalue, htext⟩ := metadataValue_of_prints
    (List.forall_mem_append.mpr ⟨hbearer, h⟩)
  rw [hheader] at hvalue htext
  refine ⟨[(metadataAuth, value), (metadataVersion, Hex.utf8 "1")], ?_, ?_, ?_⟩
  · rw [connect, hvalue]
  · have hget : Metadata.get [(metadataAuth, value), (metadataVersion, Hex.utf8 "1")]
        metadataAuth = some value := rfl
    rw [extractAuth, hget]
    simp only [htext, stripPrefix_append]
  · rfl

/-- What the server makes of a generated token that a client connects with. -/
theorem extractAuth_generated (secret : Bytes) {claims : JwtClaims}
    (hjson : crypto.claimsFromSlice (crypto.claimsToVec claims) = .ok claims) :
    ∃ metadata, connect (generateJwt crypto secret claims) = .ok metadata ∧
      extractVersion metadata = .ok 1 ∧
      ∀ claims', extractAuth crypto now config metadata = .ok claims' ↔
        claims' = claims ∧ Honoured crypto now config secret claims := by
  obtain ⟨metadata, hconnect, hauth, hversion⟩ := @connect_of_prints crypto now config _
    (@prints_tokenOf crypto secret (crypto.claimsToVec claims) _
      (prints_encodeText jwtHeader))
  refine ⟨metadata, hconnect, hversion, fun claims' => ?_⟩
  rw [hauth, validateJwt_tokenOf (dot_notMem_encodeText jwtHeader), ← generatedInput]
  by_cases hmac : crypto.hmacSha256 config.jwtSecret (generatedInput crypto claims) =
      crypto.hmacSha256 secret (generatedInput crypto claims)
  · rw [if_neg (not_not_intro hmac), readClaims_eq_ok_iff, hjson, Except.ok.injEq]
    constructor
    · rintro ⟨rfl, hexp⟩
      exact ⟨rfl, hmac, hexp⟩
    · rintro ⟨rfl, -, hexp⟩
      exact ⟨rfl, hexp⟩
  · rw [if_pos hmac]
    exact iff_of_false (by simp) fun h => hmac h.2.1

/-- Credentials are enough exactly if their claims are accepted for the version
and have a role that is allowed. -/
theorem requireRole_eq_ok_iff {allowed : Role → Bool} {message : String} {version : Nat}
    {result : JwtClaims × Nat} (hversion : extractVersion metadata = .ok version) :
    requireRole crypto now config metadata allowed message = .ok result ↔
      ∃ claims, extractAuth crypto now config metadata = .ok claims ∧
        (∃ role, Role.fromRoleStr claims.role = some role ∧ allowed role = true) ∧
        result = (claims, version) := by
  unfold requireRole
  rw [hversion]
  cases extractAuth crypto now config metadata with
  | error e => simp
  | ok claims =>
      simp only [Except.ok.injEq, exists_eq_left']
      cases Role.fromRoleStr claims.role with
      | none => simp
      | some role =>
          simp only [Option.some.injEq, exists_eq_left']
          by_cases hallowed : allowed role = true
          · rw [if_pos hallowed, Except.ok.injEq, and_iff_right hallowed]
            exact eq_comm
          · rw [if_neg hallowed]
            exact iff_of_false (by simp) fun h => hallowed h.1

theorem requireAuth_eq_ok_iff {version : Nat} {result : JwtClaims × Nat}
    (hversion : extractVersion metadata = .ok version) :
    requireAuth crypto now config metadata = .ok result ↔
      ∃ claims, extractAuth crypto now config metadata = .ok claims ∧
        result = (claims, version) := by
  unfold requireAuth
  rw [hversion]
  cases extractAuth crypto now config metadata with
  | error e => simp
  | ok claims =>
      simp only [Except.ok.injEq, exists_eq_left']
      exact eq_comm

theorem canWrite_fromRoleStr_iff {text : String} :
    (∃ role, Role.fromRoleStr text = some role ∧ role.canWrite = true) ↔
      text = "admin" ∨ text = "operator" := by
  unfold Role.fromRoleStr
  split <;> simp_all [Role.canWrite]

theorem canAdmin_fromRoleStr_iff {text : String} :
    (∃ role, Role.fromRoleStr text = some role ∧ role.canAdmin = true) ↔
      text = "admin" := by
  unfold Role.fromRoleStr
  split <;> simp_all [Role.canAdmin]

/-- A client that connects with a token generated for some claims may do exactly
what their role allows, as long as the claims are honoured. -/
theorem permissions_of_generated (secret : Bytes) {claims : JwtClaims}
    (hjson : crypto.claimsFromSlice (crypto.claimsToVec claims) = .ok claims) :
    ∃ metadata, connect (generateJwt crypto secret claims) = .ok metadata ∧
      ∀ result,
        (requireAuth crypto now config metadata = .ok result ↔
          Honoured crypto now config secret claims ∧ result = (claims, 1)) ∧
        (requireWrite crypto now config metadata = .ok result ↔
          Honoured crypto now config secret claims ∧
            (claims.role = "admin" ∨ claims.role = "operator") ∧ result = (claims, 1)) ∧
        (requireAdmin crypto now config metadata = .ok result ↔
          Honoured crypto now config secret claims ∧
            claims.role = "admin" ∧ result = (claims, 1)) := by
  obtain ⟨metadata, hconnect, hversion, hauth⟩ :=
    @extractAuth_generated crypto now config secret claims hjson
  refine ⟨metadata, hconnect, fun result => ⟨?_, ?_, ?_⟩⟩
  · rw [requireAuth_eq_ok_iff hversion]
    simp only [hauth, and_assoc, exists_eq_left]
  · rw [requireWrite, requireRole_eq_ok_iff hversion]
    simp only [hauth, and_assoc, exists_eq_left, canWrite_fromRoleStr_iff]
  · rw [requireAdmin, requireRole_eq_ok_iff hversion]
    simp only [hauth, and_assoc, exists_eq_left, canAdmin_fromRoleStr_iff]

/-- A test user with some role. -/
def testClaims (role : String) : JwtClaims where
  sub := "test-user"
  role := role
  exp := 4000
  iat := 0

def testPayload (role : String) : Bytes :=
  Hex.utf8 ("\x7b\"sub\":\"test-user\",\"role\":\"" ++ role ++
    "\",\"exp\":4000,\"iat\":0\x7d")

/-- The signature of the token for the test user, and the JSON of its claims. -/
def testCrypto (role : String) (signature : Bytes) : Crypto where
  hmacSha256 _ _ := signature
  claimsToVec _ := testPayload role
  claimsFromSlice bytes :=
    if bytes = testPayload role then .ok (testClaims role)
    else .error "expected value at line 1 column 1"

theorem claimsFromSlice_testCrypto (role : String) (signature : Bytes) :
    (testCrypto role signature).claimsFromSlice
      ((testCrypto role signature).claimsToVec (testClaims role)) =
        .ok (testClaims role) := by
  simp only [testCrypto, if_true]

def operatorCrypto : Crypto :=
  testCrypto "operator"
    [160, 36, 96, 162, 197, 216, 219, 185, 130, 160, 4, 178, 197, 61, 60, 16,
      218, 133, 70, 35, 157, 248, 191, 5, 69, 36, 247, 226, 235, 92, 187, 43]

theorem permissions_of_operator :
    ∃ metadata, connect (generateJwt operatorCrypto (Hex.utf8 "test-secret")
        (testClaims "operator")) = .ok metadata ∧
      requireWrite operatorCrypto 3000 ⟨Hex.utf8 "test-secret"⟩ metadata =
        .ok (testClaims "operator", 1) := by
  obtain ⟨metadata, hconnect, hresult⟩ := @permissions_of_generated operatorCrypto 3000
    ⟨Hex.utf8 "test-secret"⟩ (Hex.utf8 "test-secret") (testClaims "operator")
    (claimsFromSlice_testCrypto _ _)
  obtain ⟨-, hwrite, -⟩ := hresult (testClaims "operator", 1)
  exact ⟨metadata, hconnect, hwrite.mpr ⟨⟨rfl, by decide⟩, Or.inr rfl, rfl⟩⟩

end Connecting

end Auth
end Provider
end HyperBackup
