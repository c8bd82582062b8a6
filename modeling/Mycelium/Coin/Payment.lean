import Mycelium.Core.Text
import Mycelium.Core.Crypto
import Mycelium.Lib.Words

/-!
# Mycelium coin — payment links

Translation of `mycelium-coin/src/payment.rs`: a payment request is written as
`mxcpay:<address>?amount=<muon>&memo=<text>&expires=<ms>` and read back from it. The crate
`urlencoding` is a parameter (`UrlEncoding`); what its documentation says is `UrlEncoding.Laws`,
which `percentEncoding` meets.

* `toUri_params` — a link is its address and its parameters, joined;
* `readParam_*` — what reading one parameter does;
* `payment_uri_roundtrip` — a link is read back as it was written.
-/

namespace Mycelium.Coin

/-- The functions of the crate `urlencoding`. -/
class UrlEncoding where
  encode : String → String
  /-- `Err` when the decoded bytes are not UTF-8. -/
  decode : String → Except String String

/-- The characters that RFC 3986 calls unreserved. -/
def isUnreserved (c : Char) : Bool := c.isAlphanum || c = '-' || c = '_' || c = '.' || c = '~'

/-- What is documented of `urlencoding`: it writes unreserved characters and `%XX` only (hex
digits are unreserved), and reads back what it wrote. -/
structure UrlEncoding.Laws [UrlEncoding] : Prop where
  unreserved : ∀ s, ∀ c ∈ (UrlEncoding.encode s).toList, isUnreserved c = true ∨ c = '%'
  decode_encode : ∀ s, UrlEncoding.decode (UrlEncoding.encode s) = .ok s

structure PaymentRequest where
  toAddress : String
  amountMuon : UInt64
  memo : Option String
  expiresAtMs : Option UInt64
  requestId : String
deriving DecidableEq

/-- `str::parse::<u64>`. -/
def parseU64 (s : String) : Option UInt64 := (parseUnsigned (2 ^ 64) s.toList).map UInt64.ofNat

namespace PaymentRequest

section

variable [UrlEncoding]

/-- `to_uri`. -/
def toUri (r : PaymentRequest) : String :=
  let uri := "mxcpay:" ++ r.toAddress ++ "?amount=" ++ r.amountMuon.toNat.repr
  let uri := match r.memo with
    | some memo => uri ++ ("&memo=" ++ UrlEncoding.encode memo)
    | none => uri
  match r.expiresAtMs with
  | some exp => uri ++ ("&expires=" ++ exp.toNat.repr)
  | none => uri

/-- One round of the loop over the parameters in `from_uri`. -/
def readParam (r : PaymentRequest) (param : String) : Except String PaymentRequest :=
  match stripPrefix param "amount=" with
  | some v => .ok { r with amountMuon := (parseU64 v).getD 0 }
  | none =>
    match stripPrefix param "memo=" with
    | some v => do
      let memo ← UrlEncoding.decode v
      return { r with memo := some memo }
    | none =>
      match stripPrefix param "expires=" with
      | some v => .ok { r with expiresAtMs := parseU64 v }
      | none => .ok r

/-- `from_uri`, with the request id it draws. -/
def fromUri (requestId uri : String) : Except String PaymentRequest :=
  match stripPrefix uri "mxcpay:" with
  | none => .error "not a mxcpay URI"
  | some rest =>
    let (address, params) := (splitOnce '?' rest.toList).getD (rest.toList, [])
    let params := ((params.splitOn '&').filter fun p => p ≠ []).map String.ofList
    params.foldlM readParam
      { toAddress := String.ofList address, amountMuon := 0, memo := none, expiresAtMs := none,
        requestId }

/-! ## The parameters of a link -/

/-- The parameters that `to_uri` writes. -/
def params (r : PaymentRequest) : List String :=
  ("amount=" ++ r.amountMuon.toNat.repr)
    :: ((r.memo.map fun memo => "memo=" ++ UrlEncoding.encode memo).toList
      ++ (r.expiresAtMs.map fun exp => "expires=" ++ exp.toNat.repr).toList)

/-- **A link is its address and its parameters**, joined by `&`. -/
theorem toUri_params (r : PaymentRequest) :
    r.toUri = "mxcpay:" ++ String.ofList
      (r.toAddress.toList ++ '?' :: ['&'].intercalate (r.params.map String.toList)) := by
  rw [← String.toList_inj]
  obtain ⟨address, amount, memo, expires, id⟩ := r
  cases memo <;> cases expires <;>
    simp [toUri, params, String.toList_append, List.intercalate]

/-- No parameter holds the separator: names and numbers do not, and the encoded memo only holds
unreserved characters and `%`. -/
theorem not_mem_params (hlaws : UrlEncoding.Laws) (r : PaymentRequest) :
    ∀ p ∈ r.params.map String.toList, '&' ∉ p := by
  intro p hp
  obtain ⟨param, hparam, rfl⟩ := List.mem_map.mp hp
  simp only [params, List.mem_cons, List.mem_append, Option.mem_toList,
    Option.map_eq_some_iff] at hparam
  rcases hparam with rfl | ⟨memo, _, rfl⟩ | ⟨exp, _, rfl⟩
  · rw [String.toList_append, List.mem_append, not_or]
    exact ⟨by decide, not_mem_repr (by decide)⟩
  · rw [String.toList_append, List.mem_append, not_or]
    refine ⟨by decide, fun hmem => ?_⟩
    rcases hlaws.unreserved memo '&' hmem with h | h
    · exact absurd h (by decide)
    · exact absurd h (by decide)
  · rw [String.toList_append, List.mem_append, not_or]
    exact ⟨by decide, not_mem_repr (by decide)⟩

omit [UrlEncoding] in
theorem parseU64_repr (n : UInt64) : parseU64 n.toNat.repr = some n := by
  unfold parseU64
  rw [parseUnsigned_repr n.toNat_lt]
  simp

/-! ## Reading them -/

theorem readParam_amount (r : PaymentRequest) (n : UInt64) :
    r.readParam ("amount=" ++ n.toNat.repr) = .ok { r with amountMuon := n } := by
  unfold readParam
  rw [stripPrefix_append]
  simp only [parseU64_repr, Option.getD_some]

theorem readParam_memo (hlaws : UrlEncoding.Laws) (r : PaymentRequest) (memo : String) :
    r.readParam ("memo=" ++ UrlEncoding.encode memo) = .ok { r with memo := some memo } := by
  have hnot : stripPrefix ("memo=" ++ UrlEncoding.encode memo) "amount=" = none :=
    stripPrefix_other (String.toList_append ..) rfl (by decide)
  unfold readParam
  rw [hnot, stripPrefix_append]
  simp only [hlaws.decode_encode]
  rfl

theorem readParam_expires (r : PaymentRequest) (exp : UInt64) :
    r.readParam ("expires=" ++ exp.toNat.repr) = .ok { r with expiresAtMs := some exp } := by
  have hamount : stripPrefix ("expires=" ++ exp.toNat.repr) "amount=" = none :=
    stripPrefix_other (String.toList_append ..) rfl (by decide)
  have hmemo : stripPrefix ("expires=" ++ exp.toNat.repr) "memo=" = none :=
    stripPrefix_other (String.toList_append ..) rfl (by decide)
  unfold readParam
  rw [hamount, hmemo, stripPrefix_append]
  simp only [parseU64_repr]

/-- Reading all of them fills in every field but the address and the id. -/
theorem foldlM_params (hlaws : UrlEncoding.Laws) (r : PaymentRequest) (requestId : String) :
    r.params.foldlM readParam
      { toAddress := r.toAddress, amountMuon := 0, memo := none, expiresAtMs := none, requestId }
    = .ok { r with requestId } := by
  obtain ⟨address, amount, memo, expires, id⟩ := r
  cases memo <;> cases expires <;>
    simp only [params, Option.map_some, Option.map_none, Option.toList_some, Option.toList_none,
      List.nil_append, List.cons_append, List.foldlM_cons, List.foldlM_nil, readParam_amount,
      readParam_memo hlaws, readParam_expires] <;> rfl

/-- **Payment links round trip**, for every address without a `?`, every amount, memo and
expiry; only the request id is a new one. -/
theorem payment_uri_roundtrip (hlaws : UrlEncoding.Laws) (r : PaymentRequest)
    (haddress : '?' ∉ r.toAddress.toList) (requestId : String) :
    fromUri requestId r.toUri = .ok { r with requestId } := by
  -- splitting at `&` gives the parameters back, none of which is empty
  have hparams : (((['&'].intercalate (r.params.map String.toList)).splitOn '&').filter
      fun p => p ≠ []).map String.ofList = r.params := by
    rw [List.splitOn_intercalate '&' (not_mem_params hlaws r) (by simp [params])]
    rw [List.filter_eq_self.mpr]
    · simp
    · intro p hp
      obtain ⟨param, hparam, rfl⟩ := List.mem_map.mp hp
      simp only [params, List.mem_cons, List.mem_append, Option.mem_toList,
        Option.map_eq_some_iff] at hparam
      rcases hparam with rfl | ⟨memo, _, rfl⟩ | ⟨exp, _, rfl⟩ <;> simp [String.toList_append]
  unfold fromUri
  rw [toUri_params, stripPrefix_append]
  simp only [String.toList_ofList, splitOnce_append haddress, Option.getD_some, hparams,
    String.ofList_toList]
  exact foldlM_params hlaws r requestId

end

end PaymentRequest

/-! ## Percent encoding -/

/-- One byte: itself, or `%` and two upper-case hex digits. -/
def percentByte (b : UInt8) : List Char :=
  if isUnreserved (Char.ofNat b.toNat) then [Char.ofNat b.toNat]
  else ['%', (Nat.digitChar (b.toNat / 16)).toUpper, (Nat.digitChar (b.toNat % 16)).toUpper]

/-- The bytes of an encoded text; a `%` without two hex digits stands for itself. -/
def percentDecodeChars : List Char → Bytes
  | [] => []
  | c :: hi :: lo :: rest =>
    match c == '%', hexVal hi, hexVal lo with
    | true, some h, some l => UInt8.ofNat (16 * h + l) :: percentDecodeChars rest
    | _, _, _ => asBytes (String.singleton c) ++ percentDecodeChars (hi :: lo :: rest)
  | c :: rest => asBytes (String.singleton c) ++ percentDecodeChars rest

@[reducible] def percentEncoding : UrlEncoding where
  encode s := String.ofList ((asBytes s).flatMap percentByte)
  decode s :=
    match fromUtf8 (percentDecodeChars s.toList) with
    | some text => .ok text
    | none => .error "invalid utf-8 sequence"

/-- A character other than `%` stands for itself. -/
theorem percentDecodeChars_cons {c : Char} (hc : c ≠ '%') (rest : List Char) :
    percentDecodeChars (c :: rest) = asBytes (String.singleton c) ++ percentDecodeChars rest := by
  match rest with
  | [] => rfl
  | [_] => rfl
  | hi :: lo :: rest =>
    rw [percentDecodeChars]
    simp [hc]

theorem percentDecodeChars_percentByte (b : UInt8) (rest : List Char) :
    percentDecodeChars (percentByte b ++ rest) = b :: percentDecodeChars rest := by
  have hplain : ∀ n < 256, isUnreserved (Char.ofNat n) = true →
      Char.ofNat n ≠ '%' ∧ asBytes (String.singleton (Char.ofNat n)) = [UInt8.ofNat n] := by
    decide +kernel
  have hdigit : ∀ n < 16, hexVal (Nat.digitChar n).toUpper = some n := by decide
  have hb : b.toNat < 256 := b.toNat_lt
  unfold percentByte
  split
  · next hun =>
    obtain ⟨hne, hbytes⟩ := hplain b.toNat hb hun
    rw [List.singleton_append, percentDecodeChars_cons hne, hbytes, UInt8.ofNat_toNat]
    rfl
  · rw [List.cons_append, List.cons_append, List.cons_append, List.nil_append,
      percentDecodeChars, hdigit _ (by omega), hdigit _ (by omega)]
    simp only [beq_self_eq_true]
    rw [Nat.div_add_mod, UInt8.ofNat_toNat]

section

attribute [local instance] percentEncoding

theorem percentEncoding_laws : UrlEncoding.Laws where
  unreserved s c hc := by
    -- the digits of a percent byte are unreserved themselves
    have hupper : ∀ n < 16, isUnreserved (Nat.digitChar n).toUpper = true := by decide
    have htext : (UrlEncoding.encode s).toList = (asBytes s).flatMap percentByte :=
      String.toList_ofList
    rw [htext, List.mem_flatMap] at hc
    obtain ⟨b, -, hb⟩ := hc
    have hlt : b.toNat < 256 := b.toNat_lt
    unfold percentByte at hb
    split at hb
    · next hun =>
      rw [List.mem_singleton.mp hb]
      exact .inl hun
    · simp only [List.mem_cons, List.not_mem_nil, or_false] at hb
      rcases hb with rfl | rfl | rfl
      · exact .inr rfl
      · exact .inl (hupper _ (by omega))
      · exact .inl (hupper _ (by omega))
  decode_encode s := by
    -- each byte is decoded from its own one or three characters
    have hbytes : ∀ bytes : Bytes, percentDecodeChars (bytes.flatMap percentByte) = bytes := by
      intro bytes
      induction bytes with
      | nil => rfl
      | cons b bytes ih => rw [List.flatMap_cons, percentDecodeChars_percentByte, ih]
    show (match fromUtf8 (percentDecodeChars (String.ofList _).toList) with
      | some text => Except.ok text
      | none => _) = _
    rw [String.toList_ofList, hbytes, fromUtf8_asBytes]

/-- A request whose memo holds every character that means something in a link. -/
def memoRequest : PaymentRequest where
  toAddress := "mxc1abc"
  amountMuon := U64.max
  memo := some "50% & a=b? ä+"
  expiresAtMs := some 0
  requestId := "r1"

theorem payment_uri_roundtrip_memo :
    PaymentRequest.fromUri "r2" memoRequest.toUri = .ok { memoRequest with requestId := "r2" } :=
  PaymentRequest.payment_uri_roundtrip percentEncoding_laws memoRequest (by decide) "r2"

end

end Mycelium.Coin
