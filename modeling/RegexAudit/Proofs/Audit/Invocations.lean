import Mathlib.Data.List.Forall2
import RegexAudit.Proofs.Audit.Tally

/-!
# One parse for each key

Behind a cache stands a parser that may have effects. Whatever a fresh cache is asked for, the
parser is invoked for the first request under each key and for no other, and every request is
answered with what the parser made of the first request under its key.

## Main definitions

* `Request`, `Request.first?`: what a cache is asked for, and the first request under a key.
* `Invocation`, `Replays`: what a parser was asked for and gave, and a log of that.
* `Session`: a cache in use, with the state of the parser and the log of its invocations.
* `Session.Accounted`: the invariant of a session.

## Main statements

* `Session.Accounted.ask`: one request.
* `Session.Accounted.serve`: any requests, one after the other.
* `Session.Accounted.answer`: where an answer comes from.
* `Session.serve_parses_once`: invocations, counts and answers after any number of requests.

## Design notes

The answers are compared with what the cache holds now: a result is never replaced, so what a
request was answered with is still found under its key.
-/

namespace RegexAudit

/-- A regex that a cache is asked for. -/
structure Request where
  fragments : List Fragment
  flags : Flags
deriving DecidableEq, Repr

namespace Request

/-- The key of a request. -/
def key (keying : Keying) (request : Request) : CacheKey :=
  .of keying request.fragments request.flags

/-- The first request under a key. -/
def first? (keying : Keying) (requests : List Request) (key : CacheKey) : Option Request :=
  requests.find? fun request => request.key keying = key

variable {keying : Keying} {requests : List Request} {key : CacheKey}

theorem key_of_first? {first : Request} (h : first? keying requests key = some first) :
    first.key keying = key := by
  simpa using List.find?_some h

/-- A later request is not the first one under a key that has been seen. -/
theorem first?_append_of_some {first : Request} (h : first? keying requests key = some first)
    (more : List Request) : first? keying (requests ++ more) key = some first := by
  rw [first?, List.find?_append, ← first?, h]
  rfl

/-- A request is the first one under a key that has not been seen. -/
theorem first?_append_singleton {request : Request}
    (h : request.key keying ∉ requests.map (Request.key keying)) :
    first? keying (requests ++ [request]) (request.key keying) = some request := by
  have hnone : first? keying requests (request.key keying) = none := by
    rw [first?, List.find?_eq_none]
    intro other hother hsame
    exact h (List.mem_map.2 ⟨other, hother, of_decide_eq_true hsame⟩)
  rw [first?, List.find?_append, ← first?, hnone]
  simp

end Request

/-- What a parser was asked for, and what it gave. -/
structure Invocation (α : Type) where
  request : Request
  result : α

/-- The key for which the parser was invoked. -/
def Invocation.key {α : Type} (keying : Keying) (invocation : Invocation α) : CacheKey :=
  invocation.request.key keying

section Parsers

variable {σ α : Type}

/-- Hands a request to a parser with effects. -/
def Request.invoke (parse : List Fragment → Flags → StateM σ α) (request : Request) : StateM σ α :=
  parse request.fragments request.flags

/-- The log is what a parser does, invocation after invocation, on its way from one state to
another. -/
inductive Replays (parse : List Fragment → Flags → StateM σ α) (start : σ) :
    List (Invocation α) → σ → Prop
  | nil : Replays parse start [] start
  | snoc {log : List (Invocation α)} {state : σ} (request : Request)
      (prior : Replays parse start log state) :
      Replays parse start (log ++ [⟨request, (request.invoke parse state).1⟩])
        (request.invoke parse state).2

/-- A logged result is what the parser gave in some state. -/
theorem Replays.exists_state {parse : List Fragment → Flags → StateM σ α} {start state : σ}
    {log : List (Invocation α)} (h : Replays parse start log state) {invocation : Invocation α}
    (hmem : invocation ∈ log) :
    ∃ before, (invocation.request.invoke parse before).1 = invocation.result := by
  induction h with
  | nil => simp at hmem
  | @snoc log state request _ ih =>
    rcases List.mem_append.1 hmem with hold | hnew
    · exact ih hold
    · obtain rfl := List.mem_singleton.1 hnew
      exact ⟨state, rfl⟩

/-- A parser that logs its invocations. -/
def recorded (parse : List Fragment → Flags → StateM σ α) (fragments : List Fragment)
    (flags : Flags) : StateM (σ × List (Invocation α)) α := do
  let (state, log) ← get
  let (result, state) := parse fragments flags state
  set (state, log ++ [⟨⟨fragments, flags⟩, result⟩])
  return result

end Parsers

/-- A cache in use, with the state of the parser behind it. -/
structure Session (σ α : Type) where
  cache : Cache α
  state : σ
  /-- What the parser was invoked for, in order. -/
  log : List (Invocation α)
  /-- What the requests were answered with, in order. -/
  answers : List α

namespace Session

variable {σ α : Type} (parse : List Fragment → Flags → StateM σ α)

/-- A fresh cache in front of a parser in some state. -/
def start (keying : Keying) (state : σ) : Session σ α := ⟨.empty keying, state, [], []⟩

/-- One request. -/
def ask (session : Session σ α) (request : Request) : Session σ α :=
  let ((result, cache), (state, log)) :=
    session.cache.fetch (recorded parse) request.fragments request.flags
      (session.state, session.log)
  ⟨cache, state, log, session.answers ++ [result]⟩

/-- Some requests, one after the other. -/
def serve (session : Session σ α) (requests : List Request) : Session σ α :=
  requests.foldl (ask parse) session

variable {parse} {session : Session σ α} {keying : Keying} {request : Request}

/-- A request under a key with a result does not reach the parser. -/
theorem ask_of_find? {result : α} (hkeying : session.cache.keying = keying)
    (h : session.cache.find? (request.key keying) = some result) :
    session.ask parse request =
      { session with cache := session.cache.hit, answers := session.answers ++ [result] } := by
  subst hkeying
  rw [Request.key] at h
  rw [ask, Cache.fetch, h]
  rfl

/-- A request under a key without a result reaches the parser. -/
theorem ask_of_missing (hkeying : session.cache.keying = keying)
    (h : session.cache.find? (request.key keying) = none) :
    session.ask parse request =
      let (result, state) := request.invoke parse session.state
      { cache := session.cache.miss (request.key keying) result
        state
        log := session.log ++ [⟨request, result⟩]
        answers := session.answers ++ [result] } := by
  subst hkeying
  rw [Request.key] at h
  rw [ask, Cache.fetch, h]
  rfl

/-- The invariant of a session that began with a parser in some state and has had some requests. -/
structure Accounted (parse : List Fragment → Flags → StateM σ α) (keying : Keying) (start : σ)
    (requests : List Request) (session : Session σ α) : Prop where
  keyed : session.cache.keying = keying
  tallies : session.cache.Tallies (requests.map (Request.key keying))
  replays : Replays parse start session.log session.state
  /-- The cache holds what was logged, the latest first. -/
  entries : session.cache.entries =
    (session.log.map fun invocation => (invocation.key keying, invocation.result)).reverse
  nodup : (session.log.map (Invocation.key keying)).Nodup
  /-- The parser was invoked for the first request under a key. -/
  first : ∀ invocation ∈ session.log,
    Request.first? keying requests (invocation.key keying) = some invocation.request
  /-- What a request was answered with is found under its key. -/
  answers : List.Forall₂
    (fun request result => session.cache.find? (request.key keying) = some result)
    requests session.answers

variable {start : σ} {requests : List Request}

theorem accounted_start (parse : List Fragment → Flags → StateM σ α) (keying : Keying)
    (start : σ) : Accounted parse keying start [] (Session.start keying start) where
  keyed := rfl
  tallies := Cache.tallies_empty keying
  replays := .nil
  entries := rfl
  nodup := .nil
  first := by simp [Session.start]
  answers := .nil

namespace Accounted

variable (h : Accounted parse keying start requests session)
include h

/-- What the cache finds is what the log has under the key. -/
theorem exists_invocation {key : CacheKey} {result : α}
    (hfound : session.cache.find? key = some result) :
    ∃ invocation ∈ session.log,
      invocation.key keying = key ∧ invocation.result = result := by
  have hmem := Cache.mem_of_find? hfound
  rw [h.entries, List.mem_reverse, List.mem_map] at hmem
  obtain ⟨invocation, hlog, heq⟩ := hmem
  exact ⟨invocation, hlog, congrArg Prod.fst heq, congrArg Prod.snd heq⟩

/-- The parser was invoked under the keys of the requests. -/
theorem mem_keys (key : CacheKey) :
    key ∈ session.log.map (Invocation.key keying) ↔
      key ∈ requests.map (Request.key keying) := by
  constructor
  · intro hlog
    obtain ⟨invocation, hmem, rfl⟩ := List.mem_map.1 hlog
    exact List.mem_map.2 ⟨_, List.mem_of_find?_eq_some (h.first invocation hmem), rfl⟩
  · intro hasked
    obtain ⟨result, hfound⟩ := Option.isSome_iff_exists.1 ((h.tallies.found key).2 hasked)
    obtain ⟨invocation, hmem, rfl, -⟩ := h.exists_invocation hfound
    exact List.mem_map_of_mem hmem

theorem hit {result : α} (hfound : session.cache.find? (request.key keying) = some result) :
    Accounted parse keying start (requests ++ [request])
      { session with cache := session.cache.hit, answers := session.answers ++ [result] } where
  keyed := h.keyed
  tallies := by
    rw [List.map_append]
    exact h.tallies.hit (h.tallies.mem_of_find? hfound)
  replays := h.replays
  entries := h.entries
  nodup := h.nodup
  first := fun invocation hmem => Request.first?_append_of_some (h.first invocation hmem) _
  answers := List.rel_append h.answers (.cons hfound .nil)

theorem miss (hmissing : session.cache.find? (request.key keying) = none) :
    Accounted parse keying start (requests ++ [request])
      { cache := session.cache.miss (request.key keying) (request.invoke parse session.state).1
        state := (request.invoke parse session.state).2
        log := session.log ++ [⟨request, (request.invoke parse session.state).1⟩]
        answers := session.answers ++ [(request.invoke parse session.state).1] } := by
  have hnew : request.key keying ∉ requests.map (Request.key keying) :=
    h.tallies.not_mem_of_find? hmissing
  constructor
  case keyed => exact h.keyed
  case tallies =>
    rw [List.map_append]
    exact h.tallies.miss hnew _
  case replays => exact h.replays.snoc request
  case entries =>
    rw [List.map_append, List.reverse_append, ← h.entries]
    rfl
  case nodup =>
    rw [List.map_append, List.nodup_append_comm]
    exact List.nodup_cons.2 ⟨fun hmem => hnew ((h.mem_keys _).1 hmem), h.nodup⟩
  case first =>
    intro invocation hmem
    rcases List.mem_append.1 hmem with hold | hlast
    · exact Request.first?_append_of_some (h.first invocation hold) _
    · obtain rfl := List.mem_singleton.1 hlast
      exact Request.first?_append_singleton hnew
  case answers =>
    refine List.rel_append ?_ (.cons (Cache.find?_miss_self _ _ _) .nil)
    refine h.answers.imp fun other result hfound => ?_
    -- The new result is under another key, since there was none under this one.
    have hne : other.key keying ≠ request.key keying := by
      intro hsame
      rw [hsame, hmissing] at hfound
      cases hfound
    rw [Cache.find?_miss_of_ne hne]
    exact hfound

/-- A request is served from the cache or by the parser. -/
theorem ask (request : Request) :
    Accounted parse keying start (requests ++ [request]) (session.ask parse request) := by
  cases hfind : session.cache.find? (request.key keying) with
  | some result =>
    rw [ask_of_find? h.keyed hfind]
    exact h.hit hfind
  | none =>
    rw [ask_of_missing h.keyed hfind]
    exact h.miss hfind

theorem serve (more : List Request) :
    Accounted parse keying start (requests ++ more) (session.serve parse more) := by
  induction more generalizing requests session with
  | nil => simpa [Session.serve] using h
  | cons request more ih =>
    rw [List.append_cons]
    exact ih (h.ask request)

/-- The parser was invoked once under each key of the requests, and under no other. -/
theorem count_key (key : CacheKey) :
    (session.log.map (Invocation.key keying)).count key =
      if key ∈ requests.map (Request.key keying) then 1 else 0 := by
  rw [h.nodup.count]
  exact if_congr (h.mem_keys key) rfl rfl

theorem length_log : session.log.length = (requests.map (Request.key keying)).toFinset.card := by
  have hkeys : (session.log.map (Invocation.key keying)).toFinset =
      (requests.map (Request.key keying)).toFinset := by
    ext key
    rw [List.mem_toFinset, List.mem_toFinset, h.mem_keys]
  rw [← hkeys, List.toFinset_card_of_nodup h.nodup, List.length_map]

theorem size_cache : session.cache.size = session.log.length := by
  rw [Cache.size, h.entries, List.length_reverse, List.length_map]

/-- A request is answered with the parse of the first request under its key. -/
theorem answer {i : Nat} (hrequest : requests[i]? = some request) :
    ∃ first result, Request.first? keying requests (request.key keying) = some first ∧
      ⟨first, result⟩ ∈ session.log ∧ session.answers[i]? = some result := by
  obtain ⟨hlength, hall⟩ := List.forall₂_iff_get.1 h.answers
  obtain ⟨hi, rfl⟩ := List.getElem?_eq_some_iff.1 hrequest
  have hi' : i < session.answers.length := hlength ▸ hi
  obtain ⟨invocation, hmem, hkey, hresult⟩ := h.exists_invocation (hall i hi hi')
  refine ⟨invocation.request, invocation.result, ?_, hmem, ?_⟩
  · rw [List.get_eq_getElem] at hkey
    rw [← hkey]
    exact h.first invocation hmem
  · rw [List.getElem?_eq_getElem hi', hresult]
    rfl

end Accounted

/-- A request leaves the answers to earlier ones. -/
theorem answers_serve_prefix (session : Session σ α) (requests : List Request) :
    session.answers <+: (session.serve parse requests).answers := by
  induction requests generalizing session with
  | nil => exact List.prefix_rfl
  | cons request requests ih =>
    exact (List.prefix_append session.answers _).trans (ih (session.ask parse request))

theorem serve_append (session : Session σ α) (requests more : List Request) :
    session.serve parse (requests ++ more) = (session.serve parse requests).serve parse more :=
  List.foldl_append

end Session

/-- The parser hands on the joined text and the flags that it is given. -/
def ParsedRegex.HandedOn {σ : Type} (parse : List Fragment → Flags → StateM σ ParsedRegex) : Prop :=
  ∀ fragments flags state,
    (parse fragments flags state).1.source.joined = Fragment.join fragments ∧
      (parse fragments flags state).1.flags = flags

/-- The parser of the program does so, whatever effects come with it. -/
theorem ParsedRegex.handedOn {σ : Type} (effect : List Fragment → Flags → StateM σ Unit) :
    HandedOn fun fragments flags => do
      effect fragments flags
      return .ofFragments fragments flags := by
  intro fragments flags state
  exact ⟨rfl, rfl⟩

/-- When keys are texts, an answer is a regex with the text and the flags of its own request. -/
theorem Session.Accounted.answer_of_text {σ : Type}
    {parse : List Fragment → Flags → StateM σ ParsedRegex} {start : σ} {requests : List Request}
    {session : Session σ ParsedRegex} (h : session.Accounted parse .text start requests)
    (hparse : ParsedRegex.HandedOn parse) {i : Nat} {request : Request} {result : ParsedRegex}
    (hrequest : requests[i]? = some request) (hresult : session.answers[i]? = some result) :
    result.source.joined = Fragment.join request.fragments ∧ result.flags = request.flags := by
  obtain ⟨first, result, hfirst, hmem, hanswer⟩ := h.answer hrequest
  obtain rfl := Option.some.inj (hanswer.symm.trans hresult)
  obtain ⟨before, (rfl : (first.invoke parse before).1 = result)⟩ := h.replays.exists_state hmem
  obtain ⟨hjoined, hflags⟩ := hparse first.fragments first.flags before
  have hkey : first.key .text = request.key .text := Request.key_of_first? hfirst
  simp only [Request.key, CacheKey.of, CacheKey.text.injEq] at hkey
  exact ⟨hjoined.trans hkey.1, hflags.trans hkey.2⟩

/-- Whatever a fresh cache is asked for, after any number of requests the parser has been invoked
once for each key so far, the counts are those of its invocations, and every answer is the parse of
the first request under the same key. With texts as keys, it has the text and the flags of the
request itself. -/
theorem Session.serve_parses_once {σ : Type} (parse : List Fragment → Flags → StateM σ ParsedRegex)
    (keying : Keying) (state : σ) (requests : List Request) (k : Nat) (hk : k ≤ requests.length) :
    let asked := requests.take k
    let keys := asked.map (Request.key keying)
    let session := (Session.start keying state).serve parse asked
    Replays parse state session.log session.state ∧
    (∀ key, (session.log.map (Invocation.key keying)).count key =
      if key ∈ keys then 1 else 0) ∧
    session.cache.stats.misses = session.log.length ∧
    session.cache.size = session.log.length ∧
    session.log.length = keys.toFinset.card ∧
    session.cache.stats.hits + session.cache.stats.misses = k ∧
    session.answers = ((Session.start keying state).serve parse requests).answers.take k ∧
    (∀ (i : Nat) (request : Request), asked[i]? = some request →
      ∃ first result, Request.first? keying asked (request.key keying) = some first ∧
        ⟨first, result⟩ ∈ session.log ∧ session.answers[i]? = some result) ∧
    (keying = .text → ParsedRegex.HandedOn parse →
      ∀ (i : Nat) (request : Request) (result : ParsedRegex),
        asked[i]? = some request → session.answers[i]? = some result →
        result.source.joined = Fragment.join request.fragments ∧
          result.flags = request.flags) := by
  intro asked keys session
  have h : session.Accounted parse keying state asked :=
    (Session.accounted_start parse keying state).serve asked
  have hmisses : session.cache.stats.misses = session.log.length := by
    rw [h.tallies.misses, h.length_log]
  have htotal : session.cache.stats.hits + session.cache.stats.misses = k := by
    rw [h.tallies.total, List.length_map, List.length_take, Nat.min_eq_left hk]
  have hlength : session.answers.length = k := by
    rw [← h.answers.length_eq, List.length_take, Nat.min_eq_left hk]
  have hprefix : session.answers <+:
      ((Session.start keying state).serve parse requests).answers := by
    rw [← List.take_append_drop k requests, Session.serve_append]
    exact session.answers_serve_prefix _
  refine ⟨h.replays, h.count_key, hmisses, h.size_cache, h.length_log, htotal, ?_, ?_, ?_⟩
  · rw [List.prefix_iff_eq_take, hlength] at hprefix
    exact hprefix
  · exact fun i request hrequest => h.answer hrequest
  · rintro rfl hparse i request result hrequest hresult
    exact h.answer_of_text hparse hrequest hresult

namespace Repeated

/-- A parser that counts its invocations. -/
def parse (fragments : List Fragment) (flags : Flags) : StateM Nat ParsedRegex := do
  modify (· + 1)
  return .ofFragments fragments flags

/-- The pattern `ab` as `"ab"`, as `"a" + "b"`, and twice with a flag. -/
def requests : List Request :=
  [⟨[⟨['a', 'b'], ⟨1, 3⟩, false⟩], .none⟩,
   ⟨[⟨['a'], ⟨11, 12⟩, false⟩, ⟨['b'], ⟨17, 18⟩, false⟩], .none⟩,
   ⟨[⟨['a', 'b'], ⟨21, 23⟩, false⟩], .dotAll⟩,
   ⟨[⟨['a', 'b'], ⟨21, 23⟩, false⟩], .dotAll⟩]

end Repeated

/-- The first two of three requests share a text, but not their spans. -/
theorem Session.serve_parses_once_repeated :
    let byText := (start .text 0).serve Repeated.parse (Repeated.requests.take 3)
    let bySpans := (start .identity 0).serve Repeated.parse (Repeated.requests.take 3)
    byText.cache.stats.misses = 2 ∧ byText.cache.stats.hits = 1 ∧
    bySpans.cache.stats.misses = 3 ∧ bySpans.cache.stats.hits = 0 ∧
    ∃ result, byText.answers[1]? = some result ∧
      result.source.joined = ['a', 'b'] ∧ result.flags = .none := by
  intro byText bySpans
  obtain ⟨-, -, hmisses, -, hkeys, htotal, -, hanswers, htext⟩ :=
    serve_parses_once Repeated.parse .text 0 Repeated.requests 3 (by decide)
  obtain ⟨-, -, hmisses', -, hkeys', htotal', -, -, -⟩ :=
    serve_parses_once Repeated.parse .identity 0 Repeated.requests 3 (by decide)
  have htwo : byText.cache.stats.misses = 2 := hmisses.trans (hkeys.trans (by decide))
  have hthree : bySpans.cache.stats.misses = 3 := hmisses'.trans (hkeys'.trans (by decide))
  have hhits : byText.cache.stats.hits + 2 = 3 := htwo ▸ htotal
  have hhits' : bySpans.cache.stats.hits + 3 = 3 := hthree ▸ htotal'
  obtain ⟨-, result, -, -, hresult⟩ := hanswers 1 _ rfl
  exact ⟨htwo, Nat.add_right_cancel hhits, hthree, Nat.add_right_cancel hhits', result, hresult,
    htext rfl (ParsedRegex.handedOn _) 1 _ result rfl hresult⟩

end RegexAudit
