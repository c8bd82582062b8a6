import Mycelium.Lib.Words
import Mycelium.Core.Hex

/-!
# Mycelium core — end-to-end encryption

Translation of the receiving half of `mycelium-core/src/crypto.rs` (`decrypt_with`,
`decrypt_group`, `parse_x25519_public_hex`) and of `mycelium-core/src/e2e_direct_wrap.rs`,
the inner framing that names the author of an end-to-end payload. Of the sending half only
`encrypt_group` is here; sending to one peer draws a fresh ephemeral key and happens in the app
layer, outside the node.
-/

namespace Mycelium

/-- The first 32 bytes as a key, if there are exactly 32. -/
def toBytes32 (bytes : Bytes) : Option Bytes32 :=
  if h : bytes.length = 32 then some ⟨bytes.toArray, by simpa using h⟩ else none

@[simp] theorem toBytes32_toList (v : Bytes32) : toBytes32 v.toList = some v := by
  unfold toBytes32
  rw [dif_pos (by simp)]
  rfl

/-- `EncryptionKeypair`. -/
structure EncryptionKeypair where
  secret : X25519Key
deriving DecidableEq

section

variable [Prims]

/-- `EncryptionKeypair::public`. -/
def EncryptionKeypair.public (kp : EncryptionKeypair) : X25519Key := Prims.x25519Public kp.secret

/-- `EncryptionKeypair::public_hex`. -/
def EncryptionKeypair.publicHex (kp : EncryptionKeypair) : String :=
  hexEncode kp.public.toList

/-- `derive_chacha_key`; the expansion to 32 bytes cannot fail. -/
def deriveChachaKey (sharedSecret : Bytes32) (info : String) : Bytes32 :=
  Prims.hkdfSha256 sharedSecret.toList (asBytes info)

/-- `decrypt_with`: `[ephemeral key 32] ‖ [nonce 12] ‖ [ciphertext]`. -/
def decryptWith (blob : Bytes) (recipient : EncryptionKeypair) : Except String Bytes :=
  if blob.length < 44 then .error "ciphertext too short"
  else
    match toBytes32 (blob.take 32) with
    | none => .error "invalid ephemeral key length"
    | some ephemeralPublic =>
      let shared := Prims.diffieHellman recipient.secret ephemeralPublic
      match Prims.chachaDecrypt (deriveChachaKey shared "mycelium-direct-v1")
          ((blob.drop 32).take 12) (blob.drop 44) with
      | none => .error "decryption failed – wrong key or tampered message"
      | some plain => .ok plain

/-- `encrypt_group`, with the nonce it draws. -/
def encryptGroup (nonce : Vector UInt8 12) (plaintext : Bytes) (groupKey : Bytes32) : Bytes :=
  nonce.toList ++ Prims.chachaEncrypt groupKey nonce.toList plaintext

/-- `decrypt_group`: `[nonce 12] ‖ [ciphertext]`. -/
def decryptGroup (blob : Bytes) (groupKey : Bytes32) : Except String Bytes :=
  if blob.length < 12 then .error "group ciphertext too short"
  else
    match Prims.chachaDecrypt groupKey (blob.take 12) (blob.drop 12) with
    | none => .error "group decryption failed"
    | some plain => .ok plain

theorem decryptGroup_encryptGroup
    (haead : ∀ (key : Bytes32) (nonce plaintext : Bytes),
      Prims.chachaDecrypt key nonce (Prims.chachaEncrypt key nonce plaintext) = some plaintext)
    (nonce : Vector UInt8 12) (plaintext : Bytes) (groupKey : Bytes32) :
    decryptGroup (encryptGroup nonce plaintext groupKey) groupKey = .ok plaintext := by
  unfold decryptGroup encryptGroup
  rw [if_neg (by simp), List.take_left' (by simp), List.drop_left' (by simp), haead]

end

/-- `parse_x25519_public_hex`. -/
def parseX25519PublicHex (s : String) : Option X25519Key :=
  (hexDecode (trim s)).bind toBytes32

/-! ## The inner frame of an end-to-end payload -/

/-- `MAGIC`. -/
def innerMagic : Bytes := asBytes "MYCDR01\x00"

/-- `MAX_AUTHOR_BYTES`. -/
def maxAuthorBytes : Nat := 512

/-- `std::str::from_utf8`. -/
def fromUtf8 (bytes : Bytes) : Option String := String.fromUTF8? ⟨bytes.toArray⟩

/-- What is read as a text is its bytes. -/
theorem asBytes_of_fromUtf8 {bytes : Bytes} {s : String} (h : fromUtf8 bytes = some s) :
    asBytes s = bytes := by
  unfold fromUtf8 String.fromUTF8? at h
  split at h
  · obtain rfl := Option.some.inj h
    simp [asBytes, String.fromUTF8]
  · cases h

/-- The bytes of a text are read back as that text. -/
theorem fromUtf8_asBytes (s : String) : fromUtf8 (asBytes s) = some s := by
  have hbytes : (⟨(asBytes s).toArray⟩ : ByteArray) = s.toUTF8 := by
    unfold asBytes
    rw [Array.toArray_toList]
  unfold fromUtf8
  rw [hbytes]
  exact dif_pos s.isValidUTF8

/-- The length of the UTF-8 sequence a byte starts; `0` if it starts none. -/
def utf8Width (lead : UInt8) : Nat :=
  if lead < 0x80 then 1
  else if lead < 0xC2 then 0
  else if lead < 0xE0 then 2
  else if lead < 0xF0 then 3
  else if lead < 0xF5 then 4
  else 0

/-- Whether `b` may follow as the `i`-th byte after `lead`; the second byte of a sequence is
restricted further to exclude overlong forms and surrogates. -/
def utf8Follows (lead : UInt8) (i : Nat) (b : UInt8) : Bool :=
  let lo : UInt8 := if i = 1 then (if lead = 0xE0 then 0xA0 else if lead = 0xF0 then 0x90 else 0x80)
    else 0x80
  let hi : UInt8 := if i = 1 then (if lead = 0xED then 0x9F else if lead = 0xF4 then 0x8F else 0xBF)
    else 0xBF
  lo ≤ b && b ≤ hi

/-- How many of the bytes after `lead` continue its sequence, of at most `n`. -/
def utf8Run (lead : UInt8) : Nat → Nat → Bytes → Nat
  | _, 0, _ => 0
  | _, _, [] => 0
  | i, n + 1, b :: rest => if utf8Follows lead i b then utf8Run lead (i + 1) n rest + 1 else 0

/-- The character at the front and the bytes it takes. A broken sequence is replaced as far
as it was well formed. -/
def utf8Next (lead : UInt8) (rest : Bytes) : Char × Nat :=
  let w := utf8Width lead
  let got := utf8Run lead 1 (w - 1) rest
  if w = 0 then ('\uFFFD', 1)
  else if got + 1 = w then
    let head := if w = 1 then lead.toNat else lead.toNat % 2 ^ (7 - w)
    (Char.ofNat ((rest.take got).foldl (fun n b => n * 64 + b.toNat % 64) head), w)
  else ('\uFFFD', got + 1)

/-- `String::from_utf8_lossy` on the characters, with the number of bytes as a bound. -/
def fromUtf8LossyChars : Nat → Bytes → List Char
  | 0, _ => []
  | _, [] => []
  | n + 1, b :: rest =>
    (utf8Next b rest).1 :: fromUtf8LossyChars n ((b :: rest).drop (utf8Next b rest).2)

/-- `String::from_utf8_lossy`. -/
def fromUtf8Lossy (bytes : Bytes) : String := String.ofList (fromUtf8LossyChars bytes.length bytes)

/-- `u32::from_be_bytes`. -/
def beNat (bytes : Bytes) : Nat := bytes.foldl (fun n b => n * 256 + b.toNat) 0

/-- `unwrap_inner`: the logical author and the app payload; without the frame, or with a
broken one, the author is the hop the message came from. -/
def unwrapInner (data : Bytes) (relayFrom : String) : String × Bytes :=
  if data.length < innerMagic.length + 4 || !innerMagic.isPrefixOf data then (relayFrom, data)
  else
    let rest := data.drop innerMagic.length
    let n := beNat (rest.take 4)
    if maxAuthorBytes < n || rest.length < 4 + n then (relayFrom, data)
    else
      let author := (fromUtf8 ((rest.drop 4).take n)).getD ""
      (if author = "" then relayFrom else author, rest.drop (4 + n))

/-- `wrap_inner`: `MAGIC ‖ be32(len) ‖ author ‖ app`. The source panics on an author of
more than 512 bytes. -/
def wrapInner (author : String) (app : Bytes) : Option Bytes :=
  if (asBytes author).length ≤ maxAuthorBytes then
    some (innerMagic ++ (leBytes 4 (asBytes author).length).reverse ++ asBytes author ++ app)
  else none

end Mycelium
