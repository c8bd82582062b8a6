import Mycelium.Core.Text
import Mycelium.Node.DataFrames
import Mycelium.Node.Invariants
import Mycelium.Node.Symbolic

/-!
# Mycelium node — which scopes a pattern lets through

A pattern `p/*` stands for the scope `p` and the scopes below it. `Scope::matches` strips the
wildcard together with its slash and compares strings, so it also lets through the scopes that
merely begin with the letters of `p`.

* `Inside` — the subtree a pattern names;
* `Straddles` — the scope begins like the prefix of a wildcard and goes on in the same segment;
* `scope_subtrees_iff` — what is matched, processed and selected is inside a subtree exactly where
  no wildcard is straddled, or another pattern covers the scope.
-/

namespace Mycelium

/-- The scope is the pattern, or lies in the subtree that a pattern `p/*` names. -/
def Inside (scope pattern : String) : Prop :=
  pattern = scope
    ∨ ∃ pre, pattern = pre ++ "/*" ∧ (scope = pre ∨ startsWith scope (pre ++ "/") = true)

/-- The pattern is `p/*`, and in the scope `p` is followed by something other than a slash. -/
def Straddles (scope pattern : String) : Prop :=
  ∃ pre c rest, pattern = pre ++ "/*" ∧ scope.toList = pre.toList ++ c :: rest ∧ c ≠ '/'

/-! ## Matching -/

variable {scope pattern pre : String}

/-- A wildcard matches by the string before it. -/
theorem scopeMatches_wildcard :
    scopeMatches scope (pre ++ "/*") = true ↔ ∃ rest, scope.toList = pre.toList ++ rest := by
  unfold scopeMatches
  rw [stripSuffix_eq_some_iff.mpr rfl]
  exact startsWith_iff_exists

/-- A scope in the subtree of a wildcard, by what follows the prefix. -/
theorem inside_wildcard {rest : List Char} (hscope : scope.toList = pre.toList ++ rest) :
    Inside scope (pre ++ "/*") ↔ rest = [] ∨ ∃ below, rest = '/' :: below := by
  constructor
  · rintro (hsame | ⟨pre', hpattern, hbelow⟩)
    · -- the scope is spelled like the pattern
      have hlist : pre.toList ++ ['/', '*'] = pre.toList ++ rest := by
        rw [← hscope, ← hsame, String.toList_append]
        rfl
      exact .inr ⟨['*'], (List.append_cancel_left hlist).symm⟩
    · obtain rfl : pre = pre' := by
        have h := stripSuffix_eq_some_iff.mpr hpattern
        rw [stripSuffix_eq_some_iff.mpr rfl] at h
        exact Option.some.inj h
      rcases hbelow with rfl | hbelow
      · exact .inl (List.self_eq_append_right.mp hscope)
      · obtain ⟨below, hbelow⟩ := startsWith_iff_exists.mp hbelow
        rw [hscope, String.toList_append, List.append_assoc] at hbelow
        exact .inr ⟨below, List.append_cancel_left hbelow⟩
  · rintro (rfl | ⟨below, rfl⟩)
    · exact .inr ⟨pre, rfl, .inl (String.toList_inj.mp (hscope.trans (List.append_nil _)))⟩
    · refine .inr ⟨pre, rfl, .inr (startsWith_iff_exists.mpr ⟨below, ?_⟩)⟩
      rw [hscope, String.toList_append, List.append_assoc]
      rfl

/-- What is in a subtree is matched. -/
theorem scopeMatches_of_inside (h : Inside scope pattern) : scopeMatches scope pattern = true := by
  cases hstrip : stripSuffix pattern "/*" with
  | none =>
    rcases h with rfl | ⟨pre, hpattern, -⟩
    · unfold scopeMatches
      rw [hstrip]
      exact beq_self_eq_true _
    · exact absurd hpattern (stripSuffix_eq_none_iff.mp hstrip pre)
  | some pre =>
    obtain rfl := stripSuffix_eq_some_iff.mp hstrip
    rw [scopeMatches_wildcard]
    rcases h with hsame | ⟨pre', hpattern, hbelow⟩
    · exact ⟨['/', '*'], by rw [← hsame, String.toList_append]; rfl⟩
    · rw [stripSuffix_eq_some_iff.mpr hpattern] at hstrip
      obtain rfl := Option.some.inj hstrip
      rcases hbelow with rfl | hbelow
      · exact ⟨[], (List.append_nil _).symm⟩
      · obtain ⟨below, hbelow⟩ := startsWith_iff_exists.mp hbelow
        exact ⟨'/' :: below, by rw [hbelow, String.toList_append, List.append_assoc]; rfl⟩

/-- **What a pattern matches**: the subtree it names, and what straddles its prefix. -/
theorem scopeMatches_iff :
    scopeMatches scope pattern = true ↔ Inside scope pattern ∨ Straddles scope pattern := by
  refine ⟨?_, ?_⟩
  · intro h
    cases hstrip : stripSuffix pattern "/*" with
    | none =>
      unfold scopeMatches at h
      rw [hstrip] at h
      exact .inl (.inl (beq_iff_eq.mp h).symm)
    | some pre =>
      obtain rfl := stripSuffix_eq_some_iff.mp hstrip
      obtain ⟨rest, hscope⟩ := scopeMatches_wildcard.mp h
      rw [inside_wildcard hscope]
      cases rest with
      | nil => exact .inl (.inl rfl)
      | cons c rest =>
        by_cases hslash : c = '/'
        · exact .inl (.inr ⟨rest, by rw [hslash]⟩)
        · exact .inr ⟨pre, c, rest, rfl, hscope, hslash⟩
  · rintro (hinside | ⟨pre, c, rest, rfl, hscope, -⟩)
    · exact scopeMatches_of_inside hinside
    · exact scopeMatches_wildcard.mpr ⟨_, hscope⟩

/-- What straddles the prefix of a wildcard is not in its subtree. -/
theorem Straddles.not_inside (h : Straddles scope pattern) : ¬ Inside scope pattern := by
  obtain ⟨pre, c, rest, rfl, hscope, hslash⟩ := h
  rw [inside_wildcard hscope]
  rintro (hnil | ⟨below, hcons⟩)
  · cases hnil
  · exact hslash (List.cons.inj hcons).1

theorem matches_inside_iff :
    (scopeMatches scope pattern = true ↔ Inside scope pattern) ↔ ¬ Straddles scope pattern := by
  rw [scopeMatches_iff]
  constructor
  · intro h hstraddles
    exact hstraddles.not_inside (h.mp (.inr hstraddles))
  · intro h
    exact or_iff_left h

/-! ## Several patterns -/

/-- The scope is inside one of the subtrees. -/
def InsideSome (scope : String) (patterns : List String) : Prop := ∃ q ∈ patterns, Inside scope q

/-- The scope straddles one of the wildcards. -/
def StraddlesSome (scope : String) (patterns : List String) : Prop :=
  ∃ q ∈ patterns, Straddles scope q

theorem any_scopeMatches_iff {patterns : List String} :
    patterns.any (scopeMatches scope) = true
      ↔ InsideSome scope patterns ∨ StraddlesSome scope patterns := by
  rw [List.any_eq_true]
  simp only [scopeMatches_iff, InsideSome, StraddlesSome, and_or_left, exists_or]

namespace Node

/-- A peer is selected for a scope if one of the patterns it announced matches. -/
theorem mem_targetsForScope_iff {peerScopes : KvTree.Of String (List String)} {peer : String} :
    peer ∈ targetsForScope peerScopes scope
      ↔ ((peerScopes.lookup peer).getD []).any (scopeMatches scope) = true := by
  unfold targetsForScope
  rw [List.mem_map]
  constructor
  · rintro ⟨⟨peer', patterns⟩, hmem, rfl⟩
    obtain ⟨hentry, hany⟩ := List.mem_filter.mp hmem
    rw [AList.mem_lookup_iff.mpr hentry]
    exact hany
  · intro hany
    cases hlookup : peerScopes.lookup peer with
    | none =>
      rw [hlookup] at hany
      cases hany
    | some patterns =>
      rw [hlookup] at hany
      exact ⟨⟨peer, patterns⟩, List.mem_filter.mpr ⟨AList.mem_lookup_iff.mp hlookup, hany⟩, rfl⟩

/-- The clock has been read since it was read `n` times. -/
def ReadSince (n : Nat) (s : NodeRunner) : Prop := n < s.calls

section

variable [World]

theorem readSince_frame (n : Nat) : FrameInvariant (ReadSince n) True fun _ => True := by
  have hcore : CoreInvariant (ReadSince n) := ⟨fun _ _ _ hcalls hs => Nat.lt_of_lt_of_le hs hcalls⟩
  have hemit : ∀ o, Keeps (ReadSince n) True (emit o) := fun _ => Keeps.modify fun _ hs => hs
  exact
    { toCoreInvariant := hcore
      ingestUnseen := fun _ => hcore.ingestUnseen_keeps fun s hs _ => Nat.lt_succ_of_lt hs
      enqueue := fun _ _ _ => hcore.enqueue_of_pending (fun _ _ hs => hs) trivial (hemit _)
      emit := fun o _ => hemit o
      plain := fun _ _ => trivial }

variable [Prims] [WireCodec]

/-- A payload whose scope no subscribed pattern matches changes nothing; any other is processed,
which starts with a reading of the clock. -/
theorem processed_iff (s : NodeRunner) (fromPeer : String) (payload : Bytes) :
    handleScopedReceived fromPeer scope payload s ≠ .ok () s
      ↔ s.subscribedScopes.any (scopeMatches scope) = true := by
  rw [handleScopedReceived_eq]
  by_cases hmatch : s.subscribedScopes.any (scopeMatches scope) = true
  · rw [if_pos hmatch, run_bind_of_ok (nowMs_run s)]
    refine iff_of_true ?_ hmatch
    -- a processed frame reads the clock, which shows in the state whatever else happens
    have hI := readSince_frame s.calls
    have hkeeps : Keeps (ReadSince s.calls) True (guardCheck (IngestGuard.checkGossipPayload
        fromPeer payload.length (World.clock s.calls))
          >>= gossipVerdict fromPeer scope payload (World.clock s.calls)) := by
      refine Keeps.bind (hI.guardCheck _) fun res => ?_
      cases res with
      | error reason => exact hI.recordIngestReject reason
      | ok u =>
        unfold gossipVerdict
        dsimp only
        split
        · refine Keeps.bind hI.nowMs fun created => Keeps.bind (hI.guardCheck _) fun res => ?_
          cases res with
          | error reason => exact hI.recordIngestReject reason
          | ok u =>
            exact Keeps.bind (hI.ingest _) fun _ =>
              Keeps.ite (fun _ => hI.emit _ trivial) (fun _ => Keeps.pure)
        · exact Keeps.pure
    intro hsame
    have hread := hkeeps.finalState (s := { s with calls := s.calls + 1 }) (Nat.lt_succ_self _)
    rw [hsame] at hread
    exact absurd hread (Nat.lt_irrefl _)
  · rw [if_neg hmatch]
    exact iff_of_false (fun h => h rfl) hmatch

/-- **Which scopes are let through.** A pattern matches exactly the subtree it names unless the
scope straddles its prefix. So a payload is processed, and a peer selected, only for a scope inside
a subscribed, or announced, subtree exactly if a scope that straddles one of the patterns is inside
the subtree of another. -/
theorem scope_subtrees_iff :
    (∀ scope pattern, (scopeMatches scope pattern = true ↔ Inside scope pattern)
      ↔ ¬ Straddles scope pattern)
    ∧ (∀ (s : NodeRunner) fromPeer scope payload,
        (handleScopedReceived fromPeer scope payload s ≠ .ok () s → InsideSome scope s.subscribedScopes)
        ↔ (StraddlesSome scope s.subscribedScopes → InsideSome scope s.subscribedScopes))
    ∧ ∀ (s : NodeRunner) scope peer,
        (peer ∈ targetsForScope s.peerScopes scope →
          InsideSome scope ((s.peerScopes.lookup peer).getD []))
        ↔ (StraddlesSome scope ((s.peerScopes.lookup peer).getD []) →
          InsideSome scope ((s.peerScopes.lookup peer).getD [])) := by
  have hsome : ∀ {scope patterns}, (InsideSome scope patterns ∨ StraddlesSome scope patterns →
      InsideSome scope patterns) ↔ (StraddlesSome scope patterns → InsideSome scope patterns) :=
    ⟨fun h hstraddles => h (.inr hstraddles), fun h hany => hany.elim id h⟩
  refine ⟨fun scope pattern => matches_inside_iff, ?_, ?_⟩
  · intro s fromPeer scope payload
    rw [processed_iff, any_scopeMatches_iff]
    exact hsome
  · intro s scope peer
    rw [mem_targetsForScope_iff, any_scopeMatches_iff]
    exact hsome

end

/-- A node that follows one group and its subgroups. -/
def berlinNode : NodeRunner :=
  { symbolicNode 2 3 5000000 with subscribedScopes := ["mycelium/group/berlin/*"] }

/-- A payload of another group whose name begins with the same letters is processed. -/
theorem sibling_processed :
    let _ := symbolicPrims
    let _ := noCodec
    let _ := stillWorld 5000000
    handleScopedReceived "peer-1" "mycelium/group/berlin-private" [104, 105] berlinNode
        ≠ .ok () berlinNode
      ∧ ¬ InsideSome "mycelium/group/berlin-private" berlinNode.subscribedScopes := by
  intro _ _ _
  have hstraddles : Straddles "mycelium/group/berlin-private" "mycelium/group/berlin/*" :=
    ⟨"mycelium/group/berlin", '-', "private".toList, by decide, by decide, by decide⟩
  refine ⟨?_, ?_⟩
  · rw [processed_iff]
    exact any_scopeMatches_iff.mpr (.inr ⟨_, List.mem_singleton.mpr rfl, hstraddles⟩)
  · rintro ⟨pattern, hmem, hinside⟩
    obtain rfl := List.mem_singleton.mp hmem
    exact hstraddles.not_inside hinside

end Node

end Mycelium
