import Mycelium.App.Bridge
import Mycelium.Lib.Views

/-!
# Mycelium app — the storage of one mini-app and the others

The bridge puts `app:<id>:` in front of every key of an app and scans that prefix. What an app
sees of the shared state is its session, its rate counter and the rows under its prefix; the
calls of another app touch none of them, unless the prefix of one begins the prefix of the other.
Ids may hold a colon, so it can.

* `BridgeState.view` — what an app sees;
* `handle_own` / `handle_other` — one call, of the app and of another;
* `storage_isolated_iff` — all sequences of calls: two apps are isolated exactly if neither id
  continues the other behind a colon.
-/

namespace Mycelium.App

/-! ## One call -/

/-- The count of an app depends on its own entry only. -/
theorem checkRate_congr {windowMs : UInt64} {most : Nat} {text : String} {c c' : CallCounts}
    {a : String} (h : c.lookup a = c'.lookup a) (now : UInt64) :
    (checkRate windowMs most text c a now).1 = (checkRate windowMs most text c' a now).1
    ∧ (checkRate windowMs most text c a now).2.lookup a
      = (checkRate windowMs most text c' a now).2.lookup a := by
  unfold checkRate
  rw [h]
  generalize (c'.lookup a).getD (now, 0) = entry
  simp only
  generalize (if windowMs < U64.satSub now entry.1 then (now, 0) else entry) = entry
  split
  · exact ⟨rfl, by rw [AList.lookup_insert, AList.lookup_insert]⟩
  · exact ⟨rfl, by rw [AList.lookup_insert, AList.lookup_insert]⟩

/-- A call of one app is not counted for another. -/
theorem checkRate_other {windowMs : UInt64} {most : Nat} {text : String} {c : CallCounts}
    {a b : String} (hne : b ≠ a) (now : UInt64) :
    (checkRate windowMs most text c a now).2.lookup b = c.lookup b := by
  unfold checkRate
  simp only
  generalize (c.lookup a).getD (now, 0) = entry
  generalize (if windowMs < U64.satSub now entry.1 then (now, 0) else entry) = entry
  split
  · exact AList.lookup_insert_ne hne
  · exact AList.lookup_insert_ne hne

/-- What the app `x` sees of the state. -/
def BridgeState.view (x : String) (st : BridgeState) :
    Option BridgeSession × Option (UInt64 × Nat) × KvTree.Of String Bytes × Option Bytes32 :=
  (st.sessions.lookup x, st.bridgeLimits.lookup x, st.app.storage.owned x, st.app.storage.atRestKey)

/-- What an app sees of the bridge: its session, its rate, its rows. -/
theorem BridgeState.view_eq_iff {x : String} {st st' : BridgeState} :
    st.view x = st'.view x ↔ st.sessions.lookup x = st'.sessions.lookup x
      ∧ st.bridgeLimits.lookup x = st'.bridgeLimits.lookup x
      ∧ AppStorage.LooksLike x st.app.storage st'.app.storage := by
  unfold BridgeState.view
  simp only [Prod.mk.injEq]
  exact ⟨fun h => ⟨h.1, h.2.1, ⟨h.2.2.1, h.2.2.2⟩⟩, fun h => ⟨h.1, h.2.1, h.2.2.owned, h.2.2.atRestKey⟩⟩

section

variable [CapPrims]

/-- The gate counts for the caller only. -/
theorem gate_limits (host : BridgeHost) (env : CallEnv) (method : String) (args : Json)
    (st : BridgeState) {x : String} (hx : x ≠ host.appId) :
    (host.gate env method args st).2.bridgeLimits.lookup x = st.bridgeLimits.lookup x := by
  have hother : (checkBridgeRate st.bridgeLimits host.appId env.rateMs).2.lookup x
      = st.bridgeLimits.lookup x := checkRate_other hx env.rateMs
  unfold BridgeHost.gate
  split
  · rfl
  split
  · rfl
  split
  · next limits hrate =>
    rw [hrate] at hother
    exact hother
  · next limits hrate =>
    rw [hrate] at hother
    exact hother

/-- The gate sees what the app sees. -/
theorem gate_congr (host : BridgeHost) (env : CallEnv) (method : String) (args : Json)
    {st st' : BridgeState} (h : st.view host.appId = st'.view host.appId) :
    (host.gate env method args st).1 = (host.gate env method args st').1
    ∧ (host.gate env method args st).2.view host.appId
      = (host.gate env method args st').2.view host.appId := by
  obtain ⟨hsession, hlimit, hlooks⟩ := BridgeState.view_eq_iff.mp h
  -- the gate reads the sessions and limits under its own id only, so both states look the same to
  -- it
  have hvalid : ∀ tok, validateSession st.sessions host.appId tok env.sessionMs
      = validateSession st'.sessions host.appId tok env.sessionMs := by
    intro tok
    unfold validateSession
    rw [hsession]
  obtain ⟨hresult, hcount⟩ : (checkBridgeRate st.bridgeLimits host.appId env.rateMs).1
        = (checkBridgeRate st'.bridgeLimits host.appId env.rateMs).1
      ∧ (checkBridgeRate st.bridgeLimits host.appId env.rateMs).2.lookup host.appId
        = (checkBridgeRate st'.bridgeLimits host.appId env.rateMs).2.lookup host.appId :=
    checkRate_congr hlimit env.rateMs
  unfold BridgeHost.gate
  cases args.strField "_session" with
  | none => exact ⟨rfl, h⟩
  | some tok =>
    simp only [hvalid tok]
    -- the call is refused for its session, then for its rate, in both states alike
    cases validateSession st'.sessions host.appId tok env.sessionMs with
    | error e => exact ⟨rfl, h⟩
    | ok u =>
      rcases hrate : checkBridgeRate st.bridgeLimits host.appId env.rateMs with ⟨r, limits⟩
      rcases hrate' : checkBridgeRate st'.bridgeLimits host.appId env.rateMs with ⟨r', limits'⟩
      rw [hrate, hrate'] at hresult hcount
      obtain rfl : r = r' := hresult
      cases r with
      | error e => exact ⟨rfl, BridgeState.view_eq_iff.mpr ⟨hsession, hcount, hlooks⟩⟩
      | ok u => exact ⟨rfl, BridgeState.view_eq_iff.mpr ⟨hsession, hcount, hlooks⟩⟩

end

/-! ## The storage methods -/

inductive StorageMethod where
  | get
  | set
  | delete
  | list

/-- The name a method has on the bridge. -/
def StorageMethod.name : StorageMethod → String
  | .get => "storage.get"
  | .set => "storage.set"
  | .delete => "storage.delete"
  | .list => "storage.list"

namespace AppStorage

section

variable {x : String} {st st' : AppStorage}

/-- A storage looks like itself. -/
theorem LooksLike.refl (x : String) (st : AppStorage) : LooksLike x st st := ⟨rfl, rfl⟩

/-- The same write on both sides. -/
theorem LooksLike.miniappSet [Prims] (h : LooksLike x st st') (nonce : Vector UInt8 12)
    (k value : String) :
    LooksLike x (st.miniappSet nonce k value) (st'.miniappSet nonce k value) :=
  ⟨by rw [owned_miniappSet, owned_miniappSet, h.owned, h.atRestKey], h.atRestKey⟩

/-- The same deletion. -/
theorem LooksLike.miniappDelete (h : LooksLike x st st') (k : String) :
    LooksLike x (st.miniappDelete k) (st'.miniappDelete k) :=
  ⟨by rw [owned_miniappDelete, owned_miniappDelete, h.owned], h.atRestKey⟩

/-- An app that is cleared loses what it owned. -/
theorem LooksLike.clear (h : LooksLike x st st') :
    LooksLike x (st.miniappClearAllForApp x) (st'.miniappClearAllForApp x) := by
  refine ⟨?_, h.atRestKey⟩
  rw [owned_miniappClear, owned_miniappClear, h.owned, appPrefix_eq_scopedKey, h.scanPrefix]

/-! What is done to the keys of another app. -/

theorem looksLike_set_of_not_owned [Prims] {k : String} (hk : ¬ ownsKey x k = true)
    (nonce : Vector UInt8 12) (value : String) : LooksLike x (st.miniappSet nonce k value) st :=
  ⟨by rw [owned_miniappSet, if_neg hk], rfl⟩

theorem looksLike_delete_of_not_owned {k : String} (hk : ¬ ownsKey x k = true) :
    LooksLike x (st.miniappDelete k) st :=
  ⟨by rw [owned_miniappDelete, if_neg hk], rfl⟩

theorem looksLike_clear_of_not_nested {y : String} (hne : x ≠ y) (hnest : ¬ Nested x y) :
    LooksLike x (st.miniappClearAllForApp y) st := by
  refine ⟨?_, rfl⟩
  have hnone : (scanPrefix st.miniapp (appPrefix y)).filter (ownsKey x) = [] := by
    rw [List.filter_eq_nil_iff]
    intro k hk hx
    exact hnest (nested_of_ownsKey hne hx (List.mem_filter.mp hk).2)
  rw [owned_miniappClear, hnone]
  rfl

end

end AppStorage

open AppStorage (LooksLike)

/-- Two answers are the same, and what they leave looks the same to the app. -/
def SameServed (x : String) (r r' : Except String Json × Served) : Prop :=
  r.1 = r'.1 ∧ LooksLike x r.2.app.storage r'.2.app.storage

theorem SameServed.check {α : Type} {x : String} {st st' : BridgeState}
    (h : LooksLike x st.app.storage st'.app.storage) {result result' : Except String α}
    (hresult : result = result') {body body' : α → Except String Json × Served}
    (hbody : ∀ a, SameServed x (body a) (body' a)) :
    SameServed x (st.check result body) (st'.check result' body') := by
  subst hresult
  cases result with
  | error e => exact ⟨rfl, h⟩
  | ok a => exact hbody a

/-- What a body leaves looks to the app as before. -/
def Leaves (x : String) (st : BridgeState) (r : Except String Json × Served) : Prop :=
  LooksLike x r.2.app.storage st.app.storage

/-- A check that fails leaves everything, and the rest is up to the body. -/
theorem Leaves.check {α : Type} {x : String} {st : BridgeState} {result : Except String α}
    {body : α → Except String Json × Served} (hbody : ∀ a, Leaves x st (body a)) :
    Leaves x st (st.check result body) := by
  cases result with
  | error e => exact LooksLike.refl x _
  | ok a => exact hbody a

section

variable [Prims] [AppEncoder] [HostCalls]

/-- **The caller.** A storage method reads, answers and leaves what its app sees. -/
theorem body_storage_own (host : BridgeHost) (env : CallEnv) (m : StorageMethod) (args : Json)
    {st st' : BridgeState} (h : LooksLike host.appId st.app.storage st'.app.storage) :
    SameServed host.appId (host.body env m.name args st) (host.body env m.name args st') := by
  cases m with
  | get =>
    refine SameServed.check h rfl fun _ => SameServed.check h rfl fun key => ?_
    exact SameServed.check h (h.miniappGet (ownsKey_scopedKey _ key)) fun v => ⟨rfl, h⟩
  | set =>
    refine SameServed.check h rfl fun _ => SameServed.check h rfl fun key => ?_
    refine SameServed.check h rfl fun value => SameServed.check h rfl fun _ => ?_
    refine SameServed.check h rfl fun _ => ?_
    refine SameServed.check h (h.checkStorageQuota key value.utf8ByteSize) fun _ => ?_
    exact ⟨rfl, h.miniappSet env.draws.nonce (scopedKey host.appId key) value⟩
  | delete =>
    refine SameServed.check h rfl fun _ => SameServed.check h rfl fun key => ?_
    exact ⟨rfl, h.miniappDelete (scopedKey host.appId key)⟩
  | list =>
    refine SameServed.check h rfl fun _ => ⟨?_, h⟩
    simp only [h.miniappList]
    rfl

/-- **The others.** A storage method writes under the prefix of its app only. -/
theorem body_storage_other (host : BridgeHost) (env : CallEnv) (m : StorageMethod) (args : Json)
    (st : BridgeState) {x : String} (hne : x ≠ host.appId) (hnest : ¬ Nested x host.appId) :
    Leaves x st (host.body env m.name args st) := by
  have hkey : ∀ key, ¬ ownsKey x (scopedKey host.appId key) = true := fun key hx =>
    hnest (nested_of_ownsKey hne hx (ownsKey_scopedKey host.appId key))
  cases m with
  | get => exact .check fun _ => .check fun _ => .check fun _ => LooksLike.refl x _
  | set =>
    refine .check fun _ => .check fun key => .check fun value => .check fun _ => ?_
    refine .check fun _ => .check fun _ => ?_
    exact AppStorage.looksLike_set_of_not_owned (hkey key) env.draws.nonce value
  | delete =>
    refine .check fun _ => .check fun key => ?_
    exact AppStorage.looksLike_delete_of_not_owned (hkey key)
  | list => exact .check fun _ => LooksLike.refl x _

variable [CapPrims]

/-- An app is answered by what it sees. -/
theorem handle_own (host : BridgeHost) (env : CallEnv) (m : StorageMethod) (args : Json)
    {st st' : BridgeState} (h : st.view host.appId = st'.view host.appId) :
    (host.handle env m.name args st).1 = (host.handle env m.name args st').1
    ∧ (host.handle env m.name args st).2.view host.appId
      = (host.handle env m.name args st').2.view host.appId := by
  obtain ⟨hresult, hview⟩ := gate_congr host env m.name args h
  unfold BridgeHost.handle
  rcases hgate : host.gate env m.name args st with ⟨r, s⟩
  rcases hgate' : host.gate env m.name args st' with ⟨r', s'⟩
  rw [hgate, hgate'] at hresult hview
  obtain rfl : r = r' := hresult
  obtain ⟨hsession, hlimit, hlooks⟩ := BridgeState.view_eq_iff.mp hview
  cases r with
  | error e => exact ⟨rfl, hview⟩
  | ok u =>
    obtain ⟨hanswer, hleft⟩ := body_storage_own host env m args hlooks
    exact ⟨hanswer, BridgeState.view_eq_iff.mpr ⟨hsession, hlimit, hleft⟩⟩

/-- An app does not touch what another one sees, unless its id begins with the other's. -/
theorem handle_other (host : BridgeHost) (env : CallEnv) (m : StorageMethod) (args : Json)
    (st : BridgeState) {x : String} (hne : x ≠ host.appId) (hnest : ¬ Nested x host.appId) :
    (host.handle env m.name args st).2.view x = st.view x := by
  obtain ⟨limits, reputations, hleaves⟩ := gate_leaves host env m.name args st
  have hlimit := gate_limits host env m.name args st hne
  unfold BridgeHost.handle
  rcases hgate : host.gate env m.name args st with ⟨r, s⟩
  rw [hgate] at hleaves hlimit
  obtain rfl : s = _ := hleaves
  have hlooks : LooksLike x st.app.storage st.app.storage := LooksLike.refl x _
  cases r with
  | error e => exact BridgeState.view_eq_iff.mpr ⟨rfl, hlimit, hlooks⟩
  | ok u =>
    exact BridgeState.view_eq_iff.mpr ⟨rfl, hlimit, body_storage_other host env m args _ hne hnest⟩

/-! ## Sequences of operations -/

/-- A storage operation: a call through the host of an app, or the app's storage cleared. -/
inductive StorageOp where
  | call (host : BridgeHost) (env : CallEnv) (method : StorageMethod) (args : Json)
  | clear (appId : String)

namespace StorageOp

/-- The app it is made for. -/
def appId : StorageOp → String
  | .call host _ _ _ => host.appId
  | .clear appId => appId

def step : StorageOp → BridgeState → Except String Json × BridgeState
  | .call host env method args, st => host.handle env method.name args st
  | .clear appId, st =>
    (.ok .null, { st with app := st.app.updateStorage (·.miniappClearAllForApp appId) })

end StorageOp

/-- What `x` observes and ends up with does not depend on the operations of `y`. -/
def StorageIsolation (x y : String) : Prop :=
  ∀ (st : BridgeState) (ops : List StorageOp), (∀ o ∈ ops, o.appId = x ∨ o.appId = y) →
    let mine := fun o : StorageOp => o.appId == x
    (runOps StorageOp.step ops st).1.filter (fun e => mine e.1)
        = (runOps StorageOp.step (ops.filter mine) st).1
      ∧ (runOps StorageOp.step ops st).2.app.storage.owned x
        = (runOps StorageOp.step (ops.filter mine) st).2.app.storage.owned x

/-- One operation, of the app and of the other one. -/
theorem storageOps_isolated {x y : String} (hnest : ¬ Nested x y) :
    Isolated StorageOp.step (fun o => o.appId = x ∨ o.appId = y) (fun o => o.appId == x)
      (BridgeState.view x) where
  own o hallowed hmine st st' hview := by
    obtain rfl : o.appId = x := by simpa using hmine
    cases o with
    | call host env method args => exact handle_own host env method args hview
    | clear appId =>
      obtain ⟨hsession, hlimit, hlooks⟩ := BridgeState.view_eq_iff.mp hview
      exact ⟨rfl, BridgeState.view_eq_iff.mpr ⟨hsession, hlimit, hlooks.clear⟩⟩
  other o hallowed hmine st := by
    have hne : x ≠ o.appId := by
      rintro rfl
      simp at hmine
    obtain rfl : o.appId = y := hallowed.resolve_left hne.symm
    cases o with
    | call host env method args => exact handle_other host env method args st hne hnest
    | clear appId =>
      exact BridgeState.view_eq_iff.mpr
        ⟨rfl, rfl, AppStorage.looksLike_clear_of_not_nested hne hnest⟩

/-- A key of both apps, and one operation of the other app: its storage is cleared. -/
theorem not_isolated_of_nested {x y : String} (h : Nested x y) : ¬ StorageIsolation x y := by
  intro hiso
  obtain ⟨k, hx, hy⟩ := h.common_key
  let tree : KvTree.Of String Bytes := AList.insert k [] ∅
  have hrun := (hiso { app := blankApp tree } [.clear y] (by simp [StorageOp.appId])).2
  have hnot : ((StorageOp.clear y).appId == x) = false := by simpa [StorageOp.appId] using h.ne.symm
  rw [List.filter_cons_of_neg (by simpa using hnot)] at hrun
  have hscan : AppStorage.scanPrefix tree (AppStorage.appPrefix y) = [k] :=
    List.filter_cons_of_pos hy
  -- cleared, the key is gone; with no operation it is still there
  have hgone : ((blankApp tree).storage.miniappClearAllForApp y).miniapp.lookup k = none := by
    show (List.foldl (fun t k => t.erase k) tree
      (AppStorage.scanPrefix tree (AppStorage.appPrefix y))).lookup k = none
    rw [hscan]
    exact AList.lookup_erase k tree
  have hkept : tree.lookup k = some [] := AList.lookup_insert ∅
  have hlookup := congrArg (AList.lookup k) hrun
  have hleft : (((blankApp tree).storage.miniappClearAllForApp y).owned x).lookup k = none :=
    (KvTree.lookup_restrict hx _).trans hgone
  have hright : ((blankApp tree).storage.owned x).lookup k = some [] :=
    (KvTree.lookup_restrict hx _).trans hkept
  exact absurd (hleft.symm.trans (hlookup.trans hright)) (by simp)

/-- **Isolation.** Whatever two apps do, neither notices the other, exactly if neither id continues
the other behind a colon. -/
theorem storage_isolated_iff (x y : String) : StorageIsolation x y ↔ ¬ Nested x y := by
  constructor
  · exact fun hiso hnest => not_isolated_of_nested hnest hiso
  · intro hnest st ops hops
    obtain ⟨hresults, hview⟩ := (storageOps_isolated hnest).run ops hops st st rfl
    exact ⟨hresults, (BridgeState.view_eq_iff.mp hview).2.2.owned⟩

end

/-! ## Two ids that are accepted -/

section

attribute [local instance] symbolicPrims chatEncoder symbolicCaps idleCalls

/-- The storage of `com.app.a:b` is emptied when `com.app.a` is removed. -/
theorem nested_ids_not_isolated :
    (plainManifest "com.app.a").validate = .ok () ∧ (plainManifest "com.app.a:b").validate = .ok ()
    ∧ "com.app.a:b" ≠ "com.app.a" ∧ ¬ StorageIsolation "com.app.a:b" "com.app.a" := by
  refine ⟨rfl, rfl, by decide, not_isolated_of_nested ?_⟩
  exact Or.inr (by decide +kernel)

end

end Mycelium.App
