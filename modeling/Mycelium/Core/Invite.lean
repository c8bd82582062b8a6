import Mycelium.Core.Text

/-!
# Mycelium core — invites

Translation of `mycelium-core/src/invite.rs`: what a scanned or pasted invite asks to dial. Three
forms are documented, and tried in order: the link of `encodeInvite`, a multiaddr, and the older
`peerId@host:port`. Between the second and the third, what looks like a bare peer id is taken for
one.

* `parseInvite_encodeInvite`, `parseInvite_multiaddr` — the first two forms;
* `legacyHostPort_legacyInvite` — the third, for text that is not taken for a peer id;
* `invite_forms_iff` — and when it is.
-/

namespace Mycelium

/-- `PREFIX_V1`. -/
def invitePrefixV1 : String := "mycelium://invite/v1#"

/-- `encode_invite`. -/
def encodeInvite (peerId : String) : String := invitePrefixV1 ++ trim peerId

inductive InviteTarget where
  | peerId (id : String)
  | multiaddr (addr : String)
deriving DecidableEq

/-- `looks_like_peer_id`. -/
def looksLikePeerId (s : String) : Bool := 40 ≤ s.utf8ByteSize && startsWith s "12D3Koo"

/-- `legacy_host_port_to_multiaddr`. -/
def legacyHostPortToMultiaddr (input : String) : Option InviteTarget :=
  match input.toList.splitOn '@' with
  | [first, second] =>
    let peerId := trim (String.ofList first)
    match second.splitOn ':' with
    | [host, port] =>
      if peerId = "" then none
      else if (parseUnsigned (2 ^ 16) port).isNone then none
      else some (.multiaddr ("/ip4/" ++ String.ofList host ++ "/tcp/" ++ String.ofList port
        ++ "/p2p/" ++ peerId))
    | _ => none
  | _ => none

/-- `parse_invite`. -/
def parseInvite (raw : String) : Option InviteTarget :=
  let input := trim raw
  if input = "" then none
  else
    match stripPrefix input invitePrefixV1 with
    | some peerId =>
      let peerId := trim peerId
      if peerId = "" then none else some (.peerId peerId)
    | none =>
      if startsWith input "/" then some (.multiaddr input)
      else if looksLikePeerId input then some (.peerId input)
      else legacyHostPortToMultiaddr input

/-- The address of an IPv4 host. -/
structure Ipv4 where
  a : UInt8
  b : UInt8
  c : UInt8
  d : UInt8
deriving DecidableEq

/-- Dotted decimal notation. -/
def Ipv4.text (h : Ipv4) : String :=
  h.a.toNat.repr ++ "." ++ h.b.toNat.repr ++ "." ++ h.c.toNat.repr ++ "." ++ h.d.toNat.repr

/-- The older form of an invite, `peerId@host:port`. -/
def legacyInvite (peerId : String) (host : Ipv4) (port : UInt16) : String :=
  peerId ++ "@" ++ host.text ++ ":" ++ port.toNat.repr

/-! ## The first two forms -/

/-- **A link is read back**, for every peer id without white space around it. -/
theorem parseInvite_encodeInvite {p : String} (hne : p ≠ "") (htrim : trim p = p) :
    parseInvite (encodeInvite p) = some (.peerId p) := by
  have hlink : trim (encodeInvite p) = invitePrefixV1 ++ p := by
    unfold encodeInvite
    rw [htrim]
    exact trim_append rfl (by decide) htrim hne
  have hfilled : invitePrefixV1 ++ p ≠ "" := by
    intro hempty
    have h := congrArg String.toList hempty
    rw [String.toList_append] at h
    cases h
  unfold parseInvite
  simp only [hlink, if_neg hfilled, stripPrefix_append, htrim, if_neg hne]

/-- **A multiaddr is taken as it is**, trimmed. -/
theorem parseInvite_multiaddr {s : String} (h : startsWith s "/" = true) :
    parseInvite s = some (.multiaddr (trim s)) := by
  obtain ⟨rest, hs⟩ := startsWith_iff_exists.mp h
  obtain ⟨rest', htrim⟩ := trim_cons (c := '/') hs (by decide)
  have hslash : startsWith (trim s) "/" = true :=
    startsWith_iff_exists.mpr ⟨rest', htrim⟩
  have hfilled : trim s ≠ "" := by
    intro hempty
    rw [hempty] at htrim
    cases htrim
  have hlink : stripPrefix (trim s) invitePrefixV1 = none := stripPrefix_other htrim rfl (by decide)
  unfold parseInvite
  simp only [if_neg hfilled, hlink, hslash, if_true]

/-! ## The third form -/

/-- The text of a host is digits and dots. -/
theorem Ipv4.mem_text {host : Ipv4} {c : Char} (h : c ∈ host.text.toList) :
    c.isDigit = true ∨ c = '.' := by
  simp only [text, String.toList_append, List.mem_append] at h
  have hdot : ∀ {c : Char}, c ∈ ".".toList → c = '.' := fun hc => List.mem_singleton.mp hc
  rcases h with (((((h | h) | h) | h) | h) | h) | h
  · exact .inl (isDigit_of_mem_repr h)
  · exact .inr (hdot h)
  · exact .inl (isDigit_of_mem_repr h)
  · exact .inr (hdot h)
  · exact .inl (isDigit_of_mem_repr h)
  · exact .inr (hdot h)
  · exact .inl (isDigit_of_mem_repr h)

section

variable {p : String} {host : Ipv4} {port : UInt16}

theorem toList_legacyInvite : (legacyInvite p host port).toList
    = ['@'].intercalate [p.toList, [':'].intercalate [host.text.toList, port.toNat.repr.toList]] := by
  simp [legacyInvite, String.toList_append, List.intercalate]

/-- Everything in it that is no letter or digit is `@`, `:` or a dot. -/
theorem mem_legacyInvite (hp : IsPeerIdText p) {c : Char}
    (hc : c ∈ (legacyInvite p host port).toList) :
    c.isAlphanum = true ∨ c = '@' ∨ c = ':' ∨ c = '.' := by
  have hdigit : ∀ {c : Char}, c.isDigit = true → c.isAlphanum = true := by
    intro c h
    rw [Char.isAlphanum, h, Bool.or_true]
  simp only [legacyInvite, String.toList_append, List.mem_append] at hc
  rcases hc with (((hc | hc) | hc) | hc) | hc
  · exact .inl (hp.alphanum c hc)
  · exact .inr (.inl (List.mem_singleton.mp hc))
  · rcases Ipv4.mem_text hc with h | h
    · exact .inl (hdigit h)
    · exact .inr (.inr (.inr h))
  · exact .inr (.inr (.inl (List.mem_singleton.mp hc)))
  · exact .inl (hdigit (isDigit_of_mem_repr hc))

/-- Only the last two branches of the parser are reached. -/
theorem parseInvite_legacyInvite (hp : IsPeerIdText p) :
    parseInvite (legacyInvite p host port)
      = if looksLikePeerId (legacyInvite p host port) = true
        then some (.peerId (legacyInvite p host port))
        else legacyHostPortToMultiaddr (legacyInvite p host port) := by
  have htrim : trim (legacyInvite p host port) = legacyInvite p host port := by
    refine trim_eq_self fun c hc => ?_
    rcases mem_legacyInvite hp hc with h | rfl | rfl | rfl
    · exact isWhitespace_of_isAlphanum h
    · decide
    · decide
    · decide
  have hslash : '/' ∉ (legacyInvite p host port).toList := by
    intro hmem
    rcases mem_legacyInvite hp hmem with h | h | h | h <;> exact absurd h (by decide)
  have hbegins : ∀ pre : String, '/' ∈ pre.toList → startsWith (legacyInvite p host port) pre = false := by
    intro pre hpre
    rw [Bool.eq_false_iff]
    intro h
    exact hslash ((startsWith_iff.mp h).subset hpre)
  have hfilled : legacyInvite p host port ≠ "" := by
    intro hempty
    have hat : '@' ∈ (legacyInvite p host port).toList := by
      simp [legacyInvite, String.toList_append]
    rw [hempty] at hat
    cases hat
  -- no slash, so it is neither a link nor a multiaddr
  have hlink := stripPrefix_eq_none (hbegins invitePrefixV1 (by decide))
  unfold parseInvite
  simp only [htrim, if_neg hfilled, hlink, hbegins "/" (by decide), Bool.false_eq_true, if_false]

/-- **Host and port are read back** when the text gets that far. -/
theorem legacyHostPort_legacyInvite (hp : IsPeerIdText p) :
    legacyHostPortToMultiaddr (legacyInvite p host port)
      = some (.multiaddr ("/ip4/" ++ host.text ++ "/tcp/" ++ port.toNat.repr ++ "/p2p/" ++ p)) := by
  have hhost : ∀ c : Char, c.isDigit = false → c ≠ '.' → c ∉ host.text.toList := by
    intro c hdigit hdot hmem
    rcases Ipv4.mem_text hmem with h | h
    · rw [h] at hdigit
      cases hdigit
    · exact hdot h
  have hport : ∀ c : Char, c.isDigit = false → c ∉ port.toNat.repr.toList :=
    fun c hdigit => not_mem_repr hdigit
  -- the id holds no `@`, and neither do the host and the port
  have hat : (legacyInvite p host port).toList.splitOn '@'
      = [p.toList, [':'].intercalate [host.text.toList, port.toNat.repr.toList]] := by
    rw [toList_legacyInvite]
    refine List.splitOn_intercalate '@' ?_ (by simp)
    intro part hpart
    simp only [List.mem_cons, List.not_mem_nil, or_false] at hpart
    rcases hpart with hpart | hpart
    · rw [hpart]
      exact hp.not_mem (by decide)
    · rw [hpart, List.intercalate_cons_cons, List.intercalate_singleton, List.append_assoc,
        List.mem_append, List.singleton_append, List.mem_cons, not_or, not_or]
      exact ⟨hhost '@' (by decide) (by decide), by decide, hport '@' (by decide)⟩
  have hcolon : ([':'].intercalate [host.text.toList, port.toNat.repr.toList]).splitOn ':'
      = [host.text.toList, port.toNat.repr.toList] := by
    refine List.splitOn_intercalate ':' ?_ (by simp)
    intro part hpart
    simp only [List.mem_cons, List.not_mem_nil, or_false] at hpart
    rcases hpart with hpart | hpart
    · rw [hpart]
      exact hhost ':' (by decide) (by decide)
    · rw [hpart]
      exact hport ':' (by decide)
  unfold legacyHostPortToMultiaddr
  rw [hat]
  simp only [hcolon, String.ofList_toList, hp.trim_eq, if_neg hp.nonempty,
    parseUnsigned_repr port.toNat_lt, Option.isNone_some, Bool.false_eq_true, if_false]

end

/-- **Which invites are understood.** The link of every peer id and every multiaddr are; a host
and port with a peer id are exactly if the whole text is not itself taken for a peer id, for
being 40 bytes long and beginning like an Ed25519 one. -/
theorem invite_forms_iff (p s : String) (host : Ipv4) (port : UInt16) :
    (p ≠ "" → trim p = p → parseInvite (encodeInvite p) = some (.peerId p))
    ∧ (startsWith s "/" = true → parseInvite s = some (.multiaddr (trim s)))
    ∧ (IsPeerIdText p →
        (parseInvite (legacyInvite p host port)
            = some (.multiaddr ("/ip4/" ++ host.text ++ "/tcp/" ++ port.toNat.repr ++ "/p2p/" ++ p))
          ↔ looksLikePeerId (legacyInvite p host port) = false)) := by
  refine ⟨parseInvite_encodeInvite, parseInvite_multiaddr, fun hp => ?_⟩
  rw [parseInvite_legacyInvite hp]
  cases hlooks : looksLikePeerId (legacyInvite p host port) with
  | true => simp
  | false => simp [legacyHostPort_legacyInvite hp]

/-- The relay's own id at its own address is not understood. -/
theorem legacy_invite_shadowed :
    IsPeerIdText "12D3KooWSkVL5ThExB7paWskDKc2pUobKrV9yWVabMpUdw8hE2wj"
    ∧ parseInvite (legacyInvite "12D3KooWSkVL5ThExB7paWskDKc2pUobKrV9yWVabMpUdw8hE2wj"
        ⟨149, 248, 194, 198⟩ 4001)
      = some (.peerId
        "12D3KooWSkVL5ThExB7paWskDKc2pUobKrV9yWVabMpUdw8hE2wj@149.248.194.198:4001") :=
  ⟨⟨by decide, List.all_eq_true.mp (by decide +kernel)⟩, by decide +kernel⟩

end Mycelium
