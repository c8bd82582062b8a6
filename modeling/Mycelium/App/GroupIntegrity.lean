import Mycelium.App.Bridge
import Mycelium.App.Membership

/-!
# Mycelium app — the ids and keys of groups

A new group is stored under the hash of its key. An invite brings an id and a key of its own, and is
stored over whatever stands under that id (`mycelium-app/src/groups.rs`, and `create_group`,
`import_group_invite` of `mycelium-ffi/src/lib.rs`).

* `integrity_run` — creating, seeing and deleting keep the ids the hashes of the keys;
* `group_integrity_iff` — so does a run with imports, and loses nothing, exactly if every invite
  imported is true to its key and replaces no group with members.
-/

namespace Mycelium.App

/-- `serde_json::from_str::<Value>`. -/
class JsonText where
  parseJson : String → Except String Json

section

variable [Prims]

/-- The id of a group with this key. -/
def groupIdOf (key : Bytes32) : String := hexEncode (Prims.blake3 key.toList).toList

/-- `Group::new`, with the key it draws and the time. -/
def Group.new (key : Bytes32) (now : UInt64) (name : String) : Group :=
  { id := groupIdOf key, name, key, members := [], createdAtMs := now }

omit [Prims] in
/-- `Group::export_invite`, before it is written as text. -/
def Group.exportInvite (g : Group) : Json :=
  .obj [("type", .str "mycelium-group-invite"), ("version", .num 1), ("id", .str g.id),
    ("name", .str g.name), ("key", .str (hexEncode g.key.toList))]

variable [JsonText]

omit [Prims] in
/-- `Group::from_invite` at a time. -/
def Group.fromInvite (now : UInt64) (json : String) : Except String Group :=
  match JsonText.parseJson json with
  | .error e => .error e
  | .ok v =>
    match v.strField "key" with
    | none => .error "missing key"
    | some keyHex =>
      match hexDecode keyHex with
      | none => .error "invalid hex in group key"
      | some keyBytes =>
        match toBytes32 keyBytes with
        | none => .error "invalid key length"
        | some key => .ok { id := (v.strField "id").getD "", name := (v.strField "name").getD "Group"
                            key, members := [], createdAtMs := now }

namespace AppStorage

omit [JsonText] in
/-- `create_group`. -/
def createGroup (st : AppStorage) (key : Bytes32) (now : UInt64) (name : String) : AppStorage :=
  st.saveGroup (Group.new key now name)

omit [Prims] in
/-- `import_group_invite`; an invite that is not understood is ignored. -/
def importGroupInvite (st : AppStorage) (now : UInt64) (json : String) : AppStorage :=
  match Group.fromInvite now json with
  | .ok g => st.saveGroup g
  | .error _ => st

end AppStorage

/-! ## Runs -/

/-- The calls that change the stored groups. -/
inductive GroupEvent where
  | create (key : Bytes32) (now : UInt64) (name : String)
  | importInvite (now : UInt64) (json : String)
  | peerSeen (groupId peer : String)
  | delete (id : String)

def GroupEvent.run (st : AppStorage) : GroupEvent → AppStorage
  | .create key now name => st.createGroup key now name
  | .importInvite now json => st.importGroupInvite now json
  | .peerSeen groupId peer => st.groupRecordPeerSeen groupId peer
  | .delete id => st.deleteGroup id

omit [JsonText] in
/-- Every stored group has the id of its key. -/
def Integrity (st : AppStorage) : Prop :=
  ∀ id g, st.groupById id = some g → g.id = groupIdOf g.key

omit [Prims] [JsonText] in
/-- The groups stored in `st` keep their keys and their members. -/
def KeepsGroups (st st' : AppStorage) : Prop :=
  ∀ id g, st.groupById id = some g →
    ∃ g', st'.groupById id = some g' ∧ g'.key = g.key ∧ g.members ⊆ g'.members

/-- Every state of the run has integrity, and every import in it keeps the groups. -/
def Sound (st : AppStorage) : List GroupEvent → Prop
  | [] => Integrity st
  | .importInvite now json :: events =>
    Integrity st ∧ KeepsGroups st (st.importGroupInvite now json)
      ∧ Sound (st.importGroupInvite now json) events
  | e :: events => Integrity st ∧ Sound (e.run st) events

/-- The invite, if it is understood, has the id of its key, and what is stored under the id is a
group with the same key and without members. -/
def TrueInvite (st : AppStorage) (now : UInt64) (json : String) : Prop :=
  ∀ g, Group.fromInvite now json = .ok g → g.id = groupIdOf g.key
    ∧ ∀ old, st.groupById g.id = some old → old.key = g.key ∧ old.members = []

/-- All invites of the run are true ones when they are imported. -/
def TrueInvites (st : AppStorage) : List GroupEvent → Prop
  | [] => True
  | .importInvite now json :: events =>
    TrueInvite st now json ∧ TrueInvites (st.importGroupInvite now json) events
  | e :: events => TrueInvites (e.run st) events

/-! ## Invites -/

omit [Prims] in
theorem fromInvite_members {now : UInt64} {json : String} {g : Group}
    (h : Group.fromInvite now json = .ok g) : g.members = [] := by
  unfold Group.fromInvite at h
  split at h
  · cases h
  split at h
  · cases h
  split at h
  · cases h
  split at h
  · cases h
  · cases h
    rfl

omit [Prims] in
/-- An invite brings the group back, without its members. -/
theorem fromInvite_exportInvite {g : Group} {json : String}
    (hjson : JsonText.parseJson json = .ok g.exportInvite) (now : UInt64) :
    Group.fromInvite now json = .ok { g with members := [], createdAtMs := now } := by
  have hkey : g.exportInvite.strField "key" = some (hexEncode g.key.toList) := rfl
  have hid : g.exportInvite.strField "id" = some g.id := rfl
  have hname : g.exportInvite.strField "name" = some g.name := rfl
  unfold Group.fromInvite
  simp only [hjson, hkey, hid, hname, hexDecode_hexEncode, toBytes32_toList, Option.getD_some]

/-! ## One call -/

variable {st : AppStorage}

omit [JsonText] in
theorem Integrity.saveGroup (h : Integrity st) {g : Group} (hg : g.id = groupIdOf g.key) :
    Integrity (st.saveGroup g) := by
  intro id g' hg'
  rw [AppStorage.groupById_saveGroup] at hg'
  split at hg'
  · obtain rfl := Option.some.inj hg'
    exact hg
  · exact h id g' hg'

omit [JsonText] in
theorem Integrity.peerSeen (h : Integrity st) (groupId peer : String) :
    Integrity (st.groupRecordPeerSeen groupId peer) := by
  unfold AppStorage.groupRecordPeerSeen
  split
  · next g hg =>
    apply h.saveGroup
    rw [Group.recordPeerSeen_id, Group.recordPeerSeen_key]
    exact h groupId g hg
  · exact h

omit [JsonText] in
theorem Integrity.deleteGroup (h : Integrity st) (id : String) : Integrity (st.deleteGroup id) := by
  intro id' g hg
  have hlookup : (st.groups.erase id).lookup id' = some g := hg
  by_cases hid : id' = id
  · rw [hid, AList.lookup_erase] at hlookup
    cases hlookup
  · rw [AList.lookup_erase_ne hid] at hlookup
    exact h id' g hlookup

/-- **An import** keeps integrity and the groups exactly if the invite is a true one. -/
theorem import_keeps_iff (h : Integrity st) (now : UInt64) (json : String) :
    Integrity (st.importGroupInvite now json) ∧ KeepsGroups st (st.importGroupInvite now json)
      ↔ TrueInvite st now json := by
  unfold AppStorage.importGroupInvite TrueInvite
  cases hinvite : Group.fromInvite now json with
  | error e =>
    refine iff_of_true ⟨h, fun id g hg => ⟨g, hg, rfl, List.Subset.refl _⟩⟩ ?_
    intro g hg
    cases hg
  | ok g =>
    have hstored : (st.saveGroup g).groupById g.id = some g := by
      rw [AppStorage.groupById_saveGroup, if_pos rfl]
    constructor
    · rintro ⟨hintegrity, hkeeps⟩ g' hg'
      obtain rfl := Except.ok.inj hg'
      refine ⟨hintegrity g.id g hstored, fun old hold => ?_⟩
      -- the invite has taken the place of the old group
      obtain ⟨g', hg', hkey, hmembers⟩ := hkeeps g.id old hold
      obtain rfl := Option.some.inj (hstored.symm.trans hg')
      rw [fromInvite_members hinvite] at hmembers
      exact ⟨hkey.symm, List.eq_nil_of_subset_nil hmembers⟩
    · intro htrue
      obtain ⟨hid, hold⟩ := htrue g rfl
      refine ⟨h.saveGroup hid, fun id old hstoredOld => ?_⟩
      show ∃ g', (st.saveGroup g).groupById id = some g' ∧ _
      rw [AppStorage.groupById_saveGroup]
      by_cases hsame : id = g.id
      · rw [if_pos hsame]
        obtain ⟨hkey, hmembers⟩ := hold old (hsame ▸ hstoredOld)
        refine ⟨g, rfl, hkey.symm, ?_⟩
        rw [hmembers]
        exact List.nil_subset _
      · rw [if_neg hsame]
        exact ⟨old, hstoredOld, rfl, List.Subset.refl _⟩

/-! ## Every run -/

theorem Sound.integrity {events : List GroupEvent} (h : Sound st events) : Integrity st := by
  cases events with
  | nil => exact h
  | cons e events =>
    cases e with
    | importInvite now json => exact h.1
    | create key now name => exact h.1
    | peerSeen groupId peer => exact h.1
    | delete id => exact h.1

/-- **Group ids and imports.** From a storage with integrity, every state of a run has integrity
and every import in it keeps the keys and the members of the stored groups, if and only if every
invite is a true one when it is imported. -/
theorem sound_iff (h : Integrity st) (events : List GroupEvent) :
    Sound st events ↔ TrueInvites st events := by
  induction events generalizing st with
  | nil => exact iff_of_true h trivial
  | cons e events ih =>
    cases e with
    | importInvite now json =>
      unfold Sound TrueInvites
      rw [← import_keeps_iff h now json]
      constructor
      · rintro ⟨-, hkeeps, hrest⟩
        exact ⟨⟨hrest.integrity, hkeeps⟩, (ih hrest.integrity).mp hrest⟩
      · rintro ⟨⟨hnext, hkeeps⟩, hrest⟩
        exact ⟨h, hkeeps, (ih hnext).mpr hrest⟩
    | create key now name =>
      have hnext : Integrity (st.createGroup key now name) := h.saveGroup rfl
      exact (and_iff_right h).trans (ih hnext)
    | peerSeen groupId peer => exact (and_iff_right h).trans (ih (h.peerSeen groupId peer))
    | delete id => exact (and_iff_right h).trans (ih (h.deleteGroup id))

omit [JsonText] in
theorem integrity_empty : Integrity {} := by
  intro id g hg
  cases hg

/-- **Every run from an empty storage.** -/
theorem group_integrity_iff (events : List GroupEvent) : Sound {} events ↔ TrueInvites {} events :=
  sound_iff integrity_empty events

end

section

attribute [local instance] symbolicPrims

def symbolicGroupKey (n : UInt8) : Bytes32 := Vector.replicate 32 n

/-- The group of key 7, and an invite to it under another key. -/
def sevensGroup : Group := Group.new (symbolicGroupKey 7) 0 "g"

@[reducible] def twoInvites : JsonText where
  parseJson text :=
    if text = "own" then .ok sevensGroup.exportInvite
    else .ok { sevensGroup with key := symbolicGroupKey 8 }.exportInvite

attribute [local instance] twoInvites

/-- The group's own invite takes its members away, a crafted one its key. -/
theorem import_replaces_group :
    ¬ Sound {} [.create (symbolicGroupKey 7) 0 "g", .peerSeen sevensGroup.id "p", .importInvite 1 "own"]
    ∧ ¬ Sound {} [.create (symbolicGroupKey 7) 0 "g", .importInvite 1 "crafted"] := by
  refine ⟨fun h => ?_, fun h => ?_⟩
  · obtain ⟨-, -, -, hkeeps, -⟩ := h
    have hold : ((AppStorage.createGroup {} (symbolicGroupKey 7) 0 "g").groupRecordPeerSeen
        sevensGroup.id "p").groupById sevensGroup.id
          = some { sevensGroup with members := ["p"] } := by decide +kernel
    have hnew : (((AppStorage.createGroup {} (symbolicGroupKey 7) 0 "g").groupRecordPeerSeen
        sevensGroup.id "p").importGroupInvite 1 "own").groupById sevensGroup.id
          = some { sevensGroup with createdAtMs := 1 } := by decide +kernel
    obtain ⟨g, hg, -, hmembers⟩ := hkeeps _ _ hold
    obtain rfl := Option.some.inj (hnew.symm.trans hg)
    exact List.not_mem_nil (hmembers List.mem_cons_self)
  · obtain ⟨-, -, hkeeps, -⟩ := h
    have hold : (AppStorage.createGroup {} (symbolicGroupKey 7) 0 "g").groupById sevensGroup.id
        = some sevensGroup := by decide +kernel
    have hnew : ((AppStorage.createGroup {} (symbolicGroupKey 7) 0 "g").importGroupInvite 1
        "crafted").groupById sevensGroup.id
          = some { sevensGroup with key := symbolicGroupKey 8, createdAtMs := 1 } := by decide +kernel
    obtain ⟨g, hg, hkey, -⟩ := hkeeps _ _ hold
    obtain rfl := Option.some.inj (hnew.symm.trans hg)
    exact absurd hkey (by decide)

end

end Mycelium.App
