import Mycelium.App.Bridge
import Mycelium.App.Histories

/-!
# Mycelium app — the lifetime of a post

A post is stored under its expiry and its id, shown while it has not expired, and removed some time
later. What is shown at a time depends on the posts that were saved and not on when the others were
removed, since what was removed had expired already. The expiry itself is computed from the
lifetime the author asks for, and wraps.

* `sameLive_run` — pruned or not, the posts that are live are the same;
* `pruning_invisible` — what is shown is the last post saved under each expiry and id;
* `post_lifetime_iff` — which lifetimes a new post gets.
-/

namespace Mycelium.App

open KvTree

/-! ## Pruning -/

/-- A post is saved, or expired posts are removed at a time. -/
inductive BoardEvent where
  | save (post : BulletinPost)
  | prune (now : UInt64)

namespace BoardEvent

def run (st : AppStorage) : BoardEvent → AppStorage
  | .save post => st.saveBulletin post
  | .prune now => (st.pruneExpiredBulletins now).2

def post : BoardEvent → Option BulletinPost
  | .save post => some post
  | .prune _ => none

def time : BoardEvent → Option UInt64
  | .save _ => none
  | .prune now => some now

end BoardEvent

/-- The clock does not go back, from the first pruning to the time `t` at which posts are read. -/
def Clocked (events : List BoardEvent) (t : UInt64) : Prop :=
  (events.filterMap BoardEvent.time ++ [t]).Pairwise (· ≤ ·)

def boardKey (post : BulletinPost) : String × String :=
  (post.scope, tsUuidKey post.expiresAtMs post.id)

/-- The post is the last one saved with its scope, expiry and id. -/
def LastSaved (posts : List BulletinPost) (post : BulletinPost) : Prop :=
  (posts.filter fun p => p.scope = post.scope ∧ p.expiresAtMs = post.expiresAtMs ∧ p.id = post.id).getLast?
    = some post

instance (posts : List BulletinPost) : DecidablePred (LastSaved posts) :=
  fun _ => inferInstanceAs (Decidable (_ = _))

/-- The rows that have not expired at `t` are the same. -/
def SameLive (t : UInt64) (tree tree' : Of (String × String) BulletinPost) : Prop :=
  ∀ k post, t ≤ post.expiresAtMs → (tree.lookup k = some post ↔ tree'.lookup k = some post)

namespace SameLive

variable {t : UInt64} {tree tree' : Of (String × String) BulletinPost}

theorem insert (h : SameLive t tree tree') (k : String × String) (post : BulletinPost) :
    SameLive t (tree.insert k post) (tree'.insert k post) := by
  intro k' post' hlive
  by_cases hk : k' = k
  · rw [hk, AList.lookup_insert, AList.lookup_insert]
  · rw [AList.lookup_insert_ne hk, AList.lookup_insert_ne hk]
    exact h k' post' hlive

/-- What is removed has expired before `t`. -/
theorem prune {st : AppStorage} (h : SameLive t st.bulletins tree) {now : UInt64} (hnow : now ≤ t) :
    SameLive t (st.pruneExpiredBulletins now).2.bulletins tree := by
  intro k post hlive
  have hpruned : (st.pruneExpiredBulletins now).2.bulletins.lookup k
      = (st.bulletins.lookup k).filter fun post => !decide (post.expiresAtMs < now) :=
    lookup_erase_rows (fun post : BulletinPost => decide (post.expiresAtMs < now)) st.bulletins k
  rw [← h k post hlive, hpruned, Option.filter_eq_some_iff]
  refine and_iff_left ?_
  rw [U64.le_iff] at hnow hlive
  simp only [Bool.not_eq_true', decide_eq_false_iff_not, U64.lt_iff]
  omega

end SameLive

/-- **Pruned or not**, the live rows are those of the posts that were saved. Induction from the
end. -/
theorem sameLive_run {events : List BoardEvent} {t : UInt64}
    (hclock : ∀ now ∈ events.filterMap BoardEvent.time, now ≤ t) :
    SameLive t (events.foldl BoardEvent.run {}).bulletins
      (rows boardKey (events.filterMap BoardEvent.post)) := by
  induction events using List.reverseRecOn with
  | nil => exact fun k post _ => Iff.rfl
  | append_singleton events e ih =>
    rw [List.filterMap_append] at hclock
    have hlive := ih fun now hnow => hclock now (List.mem_append_left _ hnow)
    rw [List.foldl_append, List.foldl_cons, List.foldl_nil, List.filterMap_append]
    cases e with
    | save post =>
      have hrows : [BoardEvent.save post].filterMap BoardEvent.post = [post] := rfl
      rw [hrows, rows_concat]
      exact hlive.insert (boardKey post) post
    | prune now =>
      have hrows : [BoardEvent.prune now].filterMap BoardEvent.post = [] := rfl
      rw [hrows, List.append_nil]
      exact hlive.prune (hclock now (List.mem_append_right _ List.mem_cons_self))

/-! ## What is shown -/

/-- What is shown depends on the live rows only. -/
theorem bulletinsForScope_of_sameLive {t : UInt64} {st st' : AppStorage}
    (h : SameLive t st.bulletins st'.bulletins) (scope : String) :
    st.bulletinsForScope t scope = st'.bulletinsForScope t scope := by
  -- the board is the live rows of the scope by their keys, then by time
  have hshown : ∀ st : AppStorage, st.bulletinsForScope t scope
      = (((inOrder Prod.snd (st.scopeRows scope)).filter fun e => t ≤ e.2.expiresAtMs).map
          Sigma.snd).mergeSort fun a b => b.timestampMs ≤ a.timestampMs := by
    intro st
    have hrows : (st.bulletins.entries.filter fun e => e.1.1 = scope).mergeSort
        (fun a b => a.1.2 ≤ b.1.2) = inOrder Prod.snd (st.scopeRows scope) := rfl
    simp only [AppStorage.bulletinsForScope]
    rw [hrows, List.filter_map]
    rfl
  have hscope : ∀ st : AppStorage, ∀ k ∈ st.scopeRows scope, k.1 = scope := by
    intro st k hk
    have hkeys : k ∈ st.bulletins.keys.filter fun k => k.1 = scope := by
      rw [← keys_restrict]
      exact hk
    exact of_decide_eq_true (List.mem_filter.mp hkeys).2
  rw [hshown, hshown, filter_inOrder_congr]
  · intro k hk k' hk' hkey
    exact Prod.ext ((hscope st k hk).trans (hscope st' k' hk').symm) hkey
  -- a live row of this scope is the same in both stores, one of another scope is in neither list
  · intro k post hlive
    by_cases hk : k.1 = scope
    · have hrow : ∀ st : AppStorage, (st.scopeRows scope).lookup k = st.bulletins.lookup k :=
        fun st => lookup_restrict (by simpa using hk) st.bulletins
      rw [hrow, hrow]
      exact h k post (of_decide_eq_true hlive)
    · have hnone : ∀ st : AppStorage, (st.scopeRows scope).lookup k = none :=
        fun st => AList.lookup_eq_none.mpr fun hmem => hk (hscope st k hmem)
      rw [hnone, hnone]

/-- What is shown of a tree of rows is the last post under each expiry and id. -/
theorem mem_bulletinsForScope {t : UInt64} {st : AppStorage} {scope : String} {post : BulletinPost} :
    post ∈ st.bulletinsForScope t scope
      ↔ t ≤ post.expiresAtMs ∧ ∃ key, st.bulletins.lookup (scope, key) = some post := by
  simp only [AppStorage.bulletinsForScope]
  rw [List.mem_mergeSort, List.mem_filter, List.mem_map, and_comm, decide_eq_true_eq]
  refine and_congr_right fun _ => ?_
  constructor
  · rintro ⟨⟨⟨scope', key⟩, post⟩, hrow, rfl⟩
    obtain ⟨hmem, hscope⟩ := List.mem_filter.mp (List.mem_mergeSort.mp hrow)
    obtain rfl : scope' = scope := of_decide_eq_true hscope
    exact ⟨key, List.mem_dlookup st.bulletins.nodupKeys hmem⟩
  · rintro ⟨key, hkey⟩
    refine ⟨⟨(scope, key), post⟩, List.mem_mergeSort.mpr (List.mem_filter.mpr ?_), rfl⟩
    exact ⟨List.of_mem_dlookup hkey, decide_eq_true rfl⟩

theorem boardKey_eq_iff {post post' : BulletinPost} :
    boardKey post = boardKey post' ↔ post.scope = post'.scope
      ∧ post.expiresAtMs = post'.expiresAtMs ∧ post.id = post'.id := by
  rw [boardKey, boardKey, Prod.mk.injEq, tsUuidKey_inj]

theorem lookup_rows_boardKey {posts : List BulletinPost} {scope key : String} {post : BulletinPost} :
    (rows boardKey posts).lookup (scope, key) = some post
      ↔ boardKey post = (scope, key) ∧ LastSaved posts post := by
  have hfilter : boardKey post = (scope, key) →
      (posts.filter fun p => boardKey p = (scope, key))
        = posts.filter fun p => p.scope = post.scope ∧ p.expiresAtMs = post.expiresAtMs
          ∧ p.id = post.id := by
    intro hkey
    rw [← hkey]
    exact List.filter_congr fun p _ => decide_eq_decide.mpr boardKey_eq_iff
  constructor
  · intro h
    have hkey := key_of_lookup_rows h
    rw [lookup_rows, hfilter hkey] at h
    exact ⟨hkey, h⟩
  · rintro ⟨hkey, h⟩
    rw [lookup_rows, hfilter hkey]
    exact h

theorem pairwise_bulletinsForScope (st : AppStorage) (t : UInt64) (scope : String) :
    (st.bulletinsForScope t scope).Pairwise fun a b => b.timestampMs ≤ a.timestampMs := by
  have htrans : ∀ a b c : BulletinPost, decide (b.timestampMs ≤ a.timestampMs) = true →
      decide (c.timestampMs ≤ b.timestampMs) = true → decide (c.timestampMs ≤ a.timestampMs) = true := by
    intro a b c hab hbc
    exact decide_eq_true (UInt64.le_trans (of_decide_eq_true hbc) (of_decide_eq_true hab))
  have htotal : ∀ a b : BulletinPost,
      (decide (b.timestampMs ≤ a.timestampMs) || decide (a.timestampMs ≤ b.timestampMs)) = true := by
    intro a b
    rw [Bool.or_eq_true, decide_eq_true_eq, decide_eq_true_eq]
    exact UInt64.le_total _ _
  exact (List.pairwise_mergeSort htrans htotal _).imp fun h => of_decide_eq_true h

/-- No expiry and id is shown twice. -/
theorem nodup_bulletinsForScope {st : AppStorage}
    (hkeyed : ∀ k post, st.bulletins.lookup k = some post → boardKey post = k) (t : UInt64)
    (scope : String) :
    ((st.bulletinsForScope t scope).map fun p => (p.expiresAtMs, p.id)).Nodup := by
  -- the rows have different keys, and filtering and sorting keep that
  have hvalues : ((values st.bulletins).map boardKey).Nodup := nodup_map_key hkeyed
  have hrows : ((st.bulletins.entries.filter fun e => e.1.1 = scope).map Sigma.snd).Sublist
      (values st.bulletins) := List.filter_sublist.map _
  have hkeys : ((st.bulletinsForScope t scope).map boardKey).Nodup := by
    simp only [AppStorage.bulletinsForScope]
    rw [((List.mergeSort_perm _ _).map boardKey).nodup_iff]
    refine List.Nodup.sublist (List.filter_sublist.map boardKey) ?_
    have hperm : (((st.bulletins.entries.filter fun e => e.1.1 = scope).mergeSort
        fun a b => a.1.2 ≤ b.1.2).map Sigma.snd).Perm
          ((st.bulletins.entries.filter fun e => e.1.1 = scope).map Sigma.snd) :=
      (List.mergeSort_perm _ _).map _
    exact (hperm.map boardKey).nodup_iff.mpr (hvalues.sublist (hrows.map boardKey))
  have hscope : ∀ post ∈ st.bulletinsForScope t scope, boardKey post
      = (scope, tsUuidKey post.expiresAtMs post.id) := by
    intro post hpost
    obtain ⟨-, key, hkey⟩ := mem_bulletinsForScope.mp hpost
    have hfirst := congrArg Prod.fst (hkeyed _ _ hkey)
    exact Prod.ext hfirst rfl
  -- within one scope the key is the pair of the statement
  refine List.Nodup.of_map (fun pair : UInt64 × Uuid => (scope, tsUuidKey pair.1 pair.2)) ?_
  rw [List.map_map]
  rwa [List.map_congr_left hscope] at hkeys

/-- **Pruning is invisible.** Whatever was saved, and whenever expired posts were removed, what is
shown of a scope at a time is, for every expiry not before that time and every id, the last post
that was saved with them, newest first; and with the same posts saved, other removals leave the
same. -/
theorem pruning_invisible {events : List BoardEvent} {t : UInt64} (hclock : Clocked events t)
    (scope : String) :
    (∀ post, post ∈ (events.foldl BoardEvent.run {}).bulletinsForScope t scope
        ↔ post.scope = scope ∧ t ≤ post.expiresAtMs
          ∧ LastSaved (events.filterMap BoardEvent.post) post)
    ∧ (((events.foldl BoardEvent.run {}).bulletinsForScope t scope).map
        fun p => (p.expiresAtMs, p.id)).Nodup
    ∧ ((events.foldl BoardEvent.run {}).bulletinsForScope t scope).Pairwise
        (fun a b => b.timestampMs ≤ a.timestampMs)
    ∧ ∀ events', Clocked events' t →
        events'.filterMap BoardEvent.post = events.filterMap BoardEvent.post →
        (events'.foldl BoardEvent.run {}).bulletinsForScope t scope
          = (events.foldl BoardEvent.run {}).bulletinsForScope t scope := by
  -- what is shown is that of the posts alone
  have hposts : ∀ events, Clocked events t → (events.foldl BoardEvent.run {}).bulletinsForScope t scope
      = AppStorage.bulletinsForScope { bulletins := rows boardKey (events.filterMap BoardEvent.post) }
        t scope := by
    intro events hclock
    refine bulletinsForScope_of_sameLive (sameLive_run fun now hnow => ?_) scope
    exact (List.pairwise_append.mp hclock).2.2 now hnow t List.mem_cons_self
  rw [hposts events hclock]
  refine ⟨fun post => ?_, ?_, pairwise_bulletinsForScope _ t scope, ?_⟩
  · rw [mem_bulletinsForScope]
    constructor
    · rintro ⟨hlive, key, hkey⟩
      obtain ⟨hboard, hlast⟩ := lookup_rows_boardKey.mp hkey
      exact ⟨congrArg Prod.fst hboard, hlive, hlast⟩
    · rintro ⟨rfl, hlive, hlast⟩
      exact ⟨hlive, _, lookup_rows_boardKey.mpr ⟨rfl, hlast⟩⟩
  · exact nodup_bulletinsForScope (fun k post => key_of_lookup_rows) t scope
  · intro events' hclock' hsame
    rw [hposts events' hclock', hsame]

/-- A post, told from others by its id. -/
def symbolicPostAt (n : UInt8) (ts expires : UInt64) : BulletinPost :=
  { id := ⟨Vector.replicate 16 n⟩, fromDisplayName := "", title := "", body := "", scope := "s"
    timestampMs := ts, expiresAtMs := expires }

/-- The first post expires, is removed and is saved again; the second one lives. -/
def boardRun : List BoardEvent :=
  [.save (symbolicPostAt 1 5 10), .save (symbolicPostAt 2 6 20), .prune 10, .prune 11,
   .save (symbolicPostAt 1 5 10), .prune 20]

theorem pruning_invisible_boardRun :
    symbolicPostAt 2 6 20 ∈ (boardRun.foldl BoardEvent.run {}).bulletinsForScope 20 "s" :=
  ((pruning_invisible (t := 20) (by unfold Clocked; decide +kernel) "s").1 _).mpr (by decide +kernel)

/-! ## Lifetimes -/

/-- The expiry of `post_bulletin` with operators that notice an overflow. -/
def checkedExpiry (now ttlSecs : UInt64) : Option UInt64 :=
  if ttlSecs.toNat * 1000 < 2 ^ 64 then U64.checkedAdd now (ttlSecs * 1000) else none

theorem checkedExpiry_eq_some_iff {now ttlSecs e : UInt64} :
    checkedExpiry now ttlSecs = some e ↔ e.toNat = now.toNat + ttlSecs.toNat * 1000 := by
  have hthousand : (1000 : UInt64).toNat = 1000 := rfl
  unfold checkedExpiry
  constructor
  · intro h
    obtain ⟨hmul, h⟩ := Option.ite_none_right_eq_some.mp h
    rw [U64.checkedAdd_eq_some_iff, UInt64.toNat_mul, hthousand, Nat.mod_eq_of_lt hmul] at h
    exact h
  · intro h
    have hmul : ttlSecs.toNat * 1000 < 2 ^ 64 := by
      have hlt := U64.toNat_lt e
      omega
    rw [if_pos hmul, U64.checkedAdd_eq_some_iff, UInt64.toNat_mul, hthousand, Nat.mod_eq_of_lt hmul]
    exact h

/-- The expiry of a post wraps. -/
theorem toNat_newPost_expires (d : Draws) (scope title body : String) (ttlSecs : UInt64) :
    (newPost d scope title body ttlSecs).expiresAtMs.toNat
      = (d.now.toNat + ttlSecs.toNat * 1000) % 2 ^ 64 := by
  show (d.now + ttlSecs * 1000).toNat = _
  rw [UInt64.toNat_add, UInt64.toNat_mul]
  show (d.now.toNat + ttlSecs.toNat * 1000 % 2 ^ 64) % 2 ^ 64 = _
  rw [Nat.add_mod_mod]

theorem asU64_num (n : UInt64) : (Json.num n.toNat).asU64 = some n := by
  have hlt := U64.toNat_lt n
  have hrange : (0 : Int) ≤ n.toNat ∧ (n.toNat : Int) < 2 ^ 64 := by omega
  unfold Json.asU64
  simp only [if_pos hrange, Int.toNat_natCast, UInt64.ofNat_toNat]

section

variable [Prims] [AppEncoder]

/-- Whatever lifetime a mini-app passes reaches `post_bulletin`. -/
theorem bulletinPost_app {host : BridgeHost} {env : CallEnv} {args : Json} {st : BridgeState}
    {scope title body : String} {ttlSecs : UInt64} (hperm : .bulletinWrite ∈ host.permissions)
    (hscope : host.requireBulletinScope st.store scope = .ok ())
    (hscopeArg : args.strArg "scope" = .ok scope) (htitle : args.strArg "title" = .ok title)
    (hbody : args.strArg "body" = .ok body)
    (httl : args.get "ttl_secs" = some (.num ttlSecs.toNat)) :
    (host.bulletinPost env args st).2.app
      = (postBulletin env.draws scope title body ttlSecs st.app).1 := by
  have hpermission : host.requirePermission .bulletinWrite = .ok () := if_pos hperm
  have hnumber : (args.get "ttl_secs").bind Json.asU64 = some ttlSecs := by
    rw [httl, Option.bind_some, asU64_num]
  unfold BridgeHost.bulletinPost
  simp only [hpermission, hscopeArg, hscope, htitle, hbody, hnumber, BridgeState.check,
    BridgeState.served, Option.getD_some]

/-- **Which lifetimes a post gets.** The expiry is computed without an overflow, is not before the
post, and shows a post with a lifetime at the moment it is posted, if and only if the end of the
lifetime is a time that 64 bits hold. -/
theorem post_lifetime_iff (d : Draws) (scope title body : String) (ttlSecs : UInt64) (app : AppNode) :
    (checkedExpiry d.now ttlSecs = some (newPost d scope title body ttlSecs).expiresAtMs
      ∧ (newPost d scope title body ttlSecs).timestampMs
        ≤ (newPost d scope title body ttlSecs).expiresAtMs
      ∧ (0 < ttlSecs → newPost d scope title body ttlSecs
        ∈ (postBulletin d scope title body ttlSecs app).1.storage.bulletinsForScope d.now scope))
      ↔ d.now.toNat + ttlSecs.toNat * 1000 < 2 ^ 64 := by
  have hexpires := toNat_newPost_expires d scope title body ttlSecs
  constructor
  · rintro ⟨hchecked, -, -⟩
    rw [checkedExpiry_eq_some_iff] at hchecked
    rw [← hchecked]
    exact U64.toNat_lt _
  · intro hfits
    rw [Nat.mod_eq_of_lt hfits] at hexpires
    have hlater : d.now ≤ (newPost d scope title body ttlSecs).expiresAtMs := by
      rw [U64.le_iff, hexpires]
      omega
    refine ⟨checkedExpiry_eq_some_iff.mpr hexpires, hlater, fun _ => ?_⟩
    rw [mem_bulletinsForScope]
    exact ⟨hlater, _, AList.lookup_insert _⟩

end

section

attribute [local instance] symbolicPrims chatEncoder

/-- A minute after the start of the epoch. -/
def minuteDraws : Draws :=
  { displayName := "", id := ⟨Vector.replicate 16 1⟩, now := 60000, nonce := Vector.replicate 12 0 }

/-- The longest lifetime whose milliseconds are a word takes the expiry around to the past. -/
theorem post_born_expired :
    checkedExpiry 60000 18446744073709551 = none
    ∧ (newPost minuteDraws "s" "t" "b" 18446744073709551).expiresAtMs = 59384
    ∧ (newPost minuteDraws "s" "t" "b" 18446744073709551).timestampMs = 60000
    ∧ (postBulletin minuteDraws "s" "t" "b" 18446744073709551
        (blankApp ∅)).1.storage.bulletinsForScope 60000 "s" = [] := by
  decide +kernel

end

end Mycelium.App
