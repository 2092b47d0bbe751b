import LanguageClient.Proofs.Session.Progress
import Mathlib.Data.List.Induction

/-!
# What a request returns

Over a whole run of a session a request is sent under a number of its own, and the call
returns once: with the first answer to that number that the dispatcher takes, with the
message that its time has run out, or with the message that the session is over.
`Fate` says when it is which; `Correlated` is kept by everything that happens.
-/

set_option autoImplicit false

namespace LanguageClient.Session

open Dispatcher

variable {s₀ s s' : Session} {deeds : List Deed} {n : Nat} {c : Call} {id : Int}

/-! ## Runs -/

/-- The answers to a number that the dispatcher takes once it has handed the number out. -/
def answers (s : Session) (id : Int) : List Deed → List (Except RpcError Json)
  | [] => []
  | d :: deeds =>
    (if id < s.dispatcher.nextId then (s.took d).filterMap (Message.answer? id) else []) ++
      (s.undergo d).1.answers id deeds

/-- The results that a call is handed. -/
def returns (s : Session) (n : Nat) : List Deed → List (Except ClientError Json)
  | [] => []
  | d :: deeds =>
    (((s.undergo d).2.filterMap Event.returned?).filter (·.1 = n)).map Prod.snd ++
      (s.undergo d).1.returns n deeds

/-- The number of a call. -/
def number? (s : Session) (n : Nat) : Option Int := (s.call? n).bind Call.number

theorem answers_append (s : Session) (id : Int) (xs ys : List Deed) :
    s.answers id (xs ++ ys) = s.answers id xs ++ (s.through xs).answers id ys := by
  induction xs generalizing s with
  | nil => rfl
  | cons d xs ih => simp [answers, through, ih]

theorem returns_append (s : Session) (n : Nat) (xs ys : List Deed) :
    s.returns n (xs ++ ys) = s.returns n xs ++ (s.through xs).returns n ys := by
  induction xs generalizing s with
  | nil => rfl
  | cons d xs ih => simp [returns, through, ih]

theorem answers_snoc (s : Session) (id : Int) (deeds : List Deed) (d : Deed) :
    s.answers id (deeds ++ [d]) = s.answers id deeds ++
      if id < (s.through deeds).dispatcher.nextId then
        ((s.through deeds).took d).filterMap (Message.answer? id) else [] := by
  rw [answers_append]
  simp [answers]

theorem through_snoc (s : Session) (deeds : List Deed) (d : Deed) :
    s.through (deeds ++ [d]) = ((s.through deeds).undergo d).1 :=
  through_append s deeds [d]

/-! ## What can become of a request -/

/-- In a run the request of a call is sent, under a number that nobody has had before. -/
def Sends (s : Session) (deeds : List Deed) (n : Nat) (id : Int) (method : String)
    (params : Json) : Prop :=
  ∃ before after, deeds = before ++ .act .serve :: after ∧
    (s.through before).dispatcher.nextId = id ∧
    (s.through before).number? n = none ∧
    (s.through (before ++ [.act .serve])).number? n = some id ∧
    (s.through (before ++ [.act .serve])).sent =
      (s.through before).sent ++ [.request id method params]

/-- What a call whose request has a number, or has never been sent, returns in a run. -/
inductive Fate (s : Session) (deeds : List Deed) (n : Nat) (method : String)
    (number : Option Int) : Except ClientError Json → Prop
  /-- The first answer that is taken has a result. -/
  | succeeded {id : Int} {result : Json} (own : number = some id)
      (first : (s.answers id deeds).head? = some (.ok result)) :
      Fate s deeds n method number (.ok result)
  /-- The first answer that is taken has an error; its data is not handed on. -/
  | failed {id : Int} {e : RpcError} (own : number = some id)
      (first : (s.answers id deeds).head? = some (.error e)) :
      Fate s deeds n method number (.error (.rpc e.code e.message))
  /-- The call goes on when it has had its number for long enough without an answer. -/
  | timedOut {id : Int} {before between after : List Deed} (own : number = some id)
      (split : deeds = before ++ between ++ .act (.resume n) :: after)
      (issued : (s.through before).number? n = some id)
      (silent : s.answers id (before ++ between) = [])
      (late : (s.through before).clock + s.limit ≤ (s.through (before ++ between)).clock) :
      Fate s deeds n method number (.error (.timeout method (s.limit / 1000)))
  /-- The dispatcher is closed before there is an answer. -/
  | terminated {before after : List Deed} (split : deeds = before ++ after)
      (closed : (s.through before).dispatcher.closed = true)
      (silent : ∀ id, number = some id → s.answers id before = []) :
      Fate s deeds n method number (.error .sessionTerminated)

variable {method : String} {params : Json} {number : Option Int} {r : Except ClientError Json}

theorem Sends.snoc (h : s₀.Sends deeds n id method params) (d : Deed) :
    s₀.Sends (deeds ++ [d]) n id method params := by
  obtain ⟨before, after, rfl, sent⟩ := h
  exact ⟨before, after ++ [d], by simp, sent⟩

/-- What a caller makes of an answer is its result or its error. -/
theorem Fate.of_answer {outcome : Except RpcError Json} (own : number = some id)
    (first : (s.answers id deeds).head? = some outcome) :
    s.Fate deeds n method number (completionOf outcome).toResult := by
  cases outcome with
  | ok result => exact .succeeded own first
  | error e => exact .failed own first

/-- The first answer stays the first one. -/
theorem head?_answers_snoc {outcome : Except RpcError Json}
    (first : (s.answers id deeds).head? = some outcome) (d : Deed) :
    (s.answers id (deeds ++ [d])).head? = some outcome := by
  rw [answers_append, List.head?_append, first, Option.some_or]

/-- What has become of a request stays, whatever happens then. -/
theorem Fate.snoc (h : s₀.Fate deeds n method number r) (d : Deed) :
    s₀.Fate (deeds ++ [d]) n method number r := by
  cases h with
  | succeeded own first => exact .succeeded own (head?_answers_snoc first d)
  | failed own first => exact .failed own (head?_answers_snoc first d)
  | @timedOut id before between after own split issued silent late =>
    have longer : deeds ++ [d] = before ++ between ++ .act (.resume n) :: (after ++ [d]) := by
      rw [split, List.append_assoc, List.cons_append]
    exact .timedOut own longer issued silent late
  | @terminated before after split closed silent =>
    have longer : deeds ++ [d] = before ++ (after ++ [d]) := by rw [split, List.append_assoc]
    exact .terminated longer closed silent

/-! ## Answers and endings -/

/-- An answer that is taken ends its request as it says. -/
theorem ending?_of_answer {op : Option (Op String)} {outcome : Except RpcError Json}
    (answer : (op.bind Op.received?).bind (Message.answer? id) = some outcome) :
    op.bind (Op.ending? id) = some (completionOf outcome) := by
  cases op with
  | none => cases answer
  | some op =>
    cases op with
    | receive m =>
      rw [Option.bind_some, Op.ending?_receive]
      simp only [Option.bind_some, Op.received?] at answer
      rw [answer, Option.map_some]
    | request | notify | subscribe | cancel | close | failAll | dropWriter | forget => cases answer

/-- A request is ended by an answer, by being given up, or by the end of the session. -/
theorem answer_of_ending? {op : Option (Op String)} {completion : Completion}
    (ends : op.bind (Op.ending? id) = some completion) :
    (∃ outcome, (op.bind Op.received?).bind (Message.answer? id) = some outcome ∧
        completion = completionOf outcome) ∨
      (completion = .dropped ∨ completion = .terminated) ∧ op.bind Op.received? = none := by
  cases op with
  | none => cases ends
  | some op =>
    cases op with
    | receive m =>
      rw [Option.bind_some, Op.ending?_receive, Option.map_eq_some_iff] at ends
      obtain ⟨outcome, answer, beyond⟩ := ends
      exact .inl ⟨outcome, answer, beyond.symm⟩
    | cancel k =>
      simp only [Option.bind_some, Op.ending?] at ends
      split at ends
      · exact .inr ⟨.inl (Option.some.inj ends).symm, rfl⟩
      · cases ends
    | close | failAll => exact .inr ⟨.inr (Option.some.inj ends).symm, rfl⟩
    | request | notify | subscribe | dropWriter | forget => cases ends

/-- How the requests of a run have ended. -/
structure Traced (s : Session) (deeds : List Deed) : Prop where
  pending : ∀ id ∈ (s.through deeds).dispatcher.pending, s.answers id deeds = []
  future : ∀ id, (s.through deeds).dispatcher.nextId ≤ id → s.answers id deeds = []
  ended : ∀ id completion, (s.through deeds).completion? id = some completion →
    (∃ outcome, (s.answers id deeds).head? = some outcome ∧
        completion = completionOf outcome) ∨
      completion = .dropped ∨
      completion = .terminated ∧ ∃ before after, deeds = before ++ after ∧
        (s.through before).dispatcher.closed = true ∧ s.answers id before = []

theorem traced_launch (language : String) (limit : Nat) (process : Option Nat) (clock : Nat) :
    (launch language limit process clock).Traced [] := by
  refine ⟨fun _ _ => rfl, fun _ _ => rfl, ?_⟩
  intro id completion ended
  cases ended

theorem Traced.snoc (h : s₀.Traced deeds) (table : (s₀.through deeds).Tabled) (d : Deed) :
    s₀.Traced (deeds ++ [d]) := by
  obtain ⟨op, worked, took⟩ := worked_undergo table.numbered d
  have after := through_snoc s₀ deeds d
  have added : ∀ id, s₀.answers id (deeds ++ [d]) = s₀.answers id deeds ++
      if id < (s₀.through deeds).dispatcher.nextId then
        ((op.bind Op.received?).bind (Message.answer? id)).toList else [] := by
    intro id
    rw [answers_snoc, took]
    congr 2
    cases op.bind Op.received? with
    | none => rfl
    | some m => cases answer : m.answer? id <;> simp [answer]
  have next := worked.next
  refine ⟨?_, ?_, ?_⟩
  · intro id mem
    rw [after] at mem
    rw [added]
    by_cases old : id < (s₀.through deeds).dispatcher.nextId
    · obtain ⟨was, spared⟩ := (worked.old id old).mp mem
      have unanswered : (op.bind Op.received?).bind (Message.answer? id) = none := by
        by_contra answered
        obtain ⟨outcome, answer⟩ := Option.ne_none_iff_exists'.mp answered
        rw [ending?_of_answer answer] at spared
        cases spared
      simp [h.pending id was, unanswered]
    · rw [if_neg old, List.append_nil]
      exact h.future id (by omega)
  · intro id new
    rw [after] at new
    have unissued : ¬ id < (s₀.through deeds).dispatcher.nextId := by omega
    rw [added, if_neg unissued, List.append_nil]
    exact h.future id (by omega)
  · intro id completion ended
    rw [after, worked.completion id] at ended
    -- What ended a request first is never replaced.
    rcases Option.or_eq_some_iff.mp ended with was | ⟨-, now⟩
    · rcases h.ended id completion was with ⟨outcome, first, beyond⟩ | dropped |
        ⟨beyond, before, rest, split, closed, silent⟩
      · exact .inl ⟨outcome, head?_answers_snoc first d, beyond⟩
      · exact .inr (.inl dropped)
      · refine .inr (.inr ⟨beyond, before, rest ++ [d], ?_, closed, silent⟩)
        rw [split, List.append_assoc]
    · split at now
      · rename_i mem
        have old := table.numbered.lt_nextId id mem
        rw [added, if_pos old, h.pending id mem, List.nil_append]
        rcases answer_of_ending? now with ⟨outcome, answer, beyond⟩ | ⟨how, nothing⟩
        · exact .inl ⟨outcome, by rw [answer]; rfl, beyond⟩
        · rcases how with dropped | beyond
          · exact .inr (.inl dropped)
          · refine .inr (.inr ⟨beyond, deeds ++ [d], [], (List.append_nil _).symm, ?_, ?_⟩)
            · rw [after]
              exact worked.terminated id (beyond ▸ now)
            · rw [added, h.pending id mem, nothing]
              simp
      · cases now

/-! ## Calls with a request -/

/-- Where a call with a request can stand, and under which number, in a run. -/
inductive Pursues (s : Session) (deeds : List Deed) (n : Nat) (method : String) (params : Json) :
    Stage → Option Int → Prop
  | ready : Pursues s deeds n method params .ready none
  | asking : Pursues s deeds n method params (.asking .main) none
  | refused (fate : s.Fate deeds n method none (.error .sessionTerminated)) :
      Pursues s deeds n method params (.answered .main (.error .sessionTerminated)) none
  | granted {id : Int} (sends : s.Sends deeds n id method params) :
      Pursues s deeds n method params (.answered .main (.ok (some id))) (some id)
  | waiting {id : Int} {deadline : Nat} (sends : s.Sends deeds n id method params)
      (since : ∃ before between, deeds = before ++ between ∧
        (s.through before).number? n = some id ∧
        deadline = (s.through before).clock + s.limit) :
      Pursues s deeds n method params (.waiting id deadline) (some id)
  | finished {number : Option Int} {r : Except ClientError Json}
      (sends : ∀ id, number = some id → s.Sends deeds n id method params)
      (fate : s.Fate deeds n method number r) :
      Pursues s deeds n method params (.finished r) number
  | abandoned {number : Option Int}
      (sends : ∀ id, number = some id → s.Sends deeds n id method params) :
      Pursues s deeds n method params .abandoned number

variable {stage : Stage}

theorem Pursues.sends (h : s₀.Pursues deeds n method params stage number)
    (own : number = some id) : s₀.Sends deeds n id method params := by
  cases h with
  | ready | asking | refused => cases own
  | granted sends | waiting sends =>
    cases own
    exact sends
  | finished sends | abandoned sends => exact sends id own

theorem Pursues.snoc (h : s₀.Pursues deeds n method params stage number) (d : Deed) :
    s₀.Pursues (deeds ++ [d]) n method params stage number := by
  cases h with
  | ready => exact .ready
  | asking => exact .asking
  | refused fate => exact .refused (fate.snoc d)
  | granted sends => exact .granted (sends.snoc d)
  | waiting sends since =>
    obtain ⟨before, between, split, issued, deadline⟩ := since
    refine .waiting (sends.snoc d) ⟨before, between ++ [d], ?_, issued, deadline⟩
    rw [split, List.append_assoc]
  | finished sends fate => exact .finished (fun id own => (sends id own).snoc d) (fate.snoc d)
  | abandoned sends => exact .abandoned fun id own => (sends id own).snoc d

/-- A call that learns its outcome has met its fate. -/
theorem Pursues.heard {outcome : Except ClientError Json} {given : List Command}
    (h : s₀.Pursues deeds n method params c.stage c.number) (goal : c.goal = .request method params)
    (traced : s₀.Traced deeds) (owned : (s₀.through deeds).Owned n c)
    (heard : Heard (s₀.through deeds) c outcome given) :
    s₀.Fate (deeds ++ [.act (.resume n)]) n method c.number outcome := by
  obtain ⟨g, stage, number⟩ := c
  dsimp only at h goal
  cases heard with
  | @refused e at_ =>
    dsimp only at at_
    subst at_
    cases h with
    | refused fate => exact fate.snoc _
  | done at_ =>
    dsimp only at at_
    subst at_
    cases h
  | @completed id deadline completion at_ found =>
    dsimp only at at_
    subst at_
    -- Nobody has given the request up, so it was answered or the session has ended.
    obtain ⟨own, -, kept⟩ := owned.awaited id rfl
    dsimp only at own ⊢
    rcases traced.ended id completion found with ⟨outcome, first, rfl⟩ | rfl |
      ⟨rfl, before, after, split, closed, silent⟩
    · exact (Fate.of_answer own first).snoc _
    · exact absurd found kept
    · refine (Fate.terminated split closed ?_).snoc _
      intro k same
      rw [own] at same
      cases same
      exact silent
  | @timedOut id deadline at_ quiet late =>
    dsimp only at at_
    subst at_
    cases h with
    | waiting sends since =>
      obtain ⟨before, between, rfl, issued, rfl⟩ := since
      have limit := limit_through s₀ (before ++ between)
      -- A request that is pending has taken no answer.
      have pending : id ∈ (s₀.through (before ++ between)).dispatcher.pending := by
        rcases owned.held id rfl with mem | ended
        · exact mem
        · rw [quiet] at ended
          cases ended
      have name : Goal.requestMethod g = method := by rw [goal, Goal.requestMethod]
      dsimp only
      rw [limit, name]
      exact .timedOut rfl rfl issued (traced.pending id pending) late

/-- A call with a request takes only the turns of one. -/
theorem Pursues.turn {given : List Command}
    (h : s₀.Pursues deeds n method params c.stage c.number) (goal : c.goal = .request method params)
    (hc : (s₀.through deeds).call? n = some c) (traced : s₀.Traced deeds)
    (owned : (s₀.through deeds).Owned n c) (turn : Turn (s₀.through deeds) n c stage given) :
    s₀.Pursues (deeds ++ [.act (.resume n)]) n method params stage c.number := by
  cases turn with
  | declines _ opens | exits _ opens =>
    rw [goal] at opens
    cases opens
  | asks at_ =>
    obtain ⟨g, stage, number⟩ := c
    dsimp only at at_ h ⊢
    subst at_
    cases h
    exact .asking
  | @awaits id at_ =>
    obtain ⟨own, -, -⟩ := owned.awaited id (by rw [at_]; rfl)
    have sends := (h.sends own).snoc (.act (.resume n))
    rw [own]
    refine .waiting sends ⟨deeds, [.act (.resume n)], rfl, ?_, ?_⟩
    · rw [number?, hc, Option.bind_some, own]
    · rw [limit_through]
  | ends heard whole =>
    rw [whole (by rw [goal]; rfl)]
    exact .finished (fun id own => (h.sends own).snoc _) (h.heard goal traced owned heard)
  | leaves _ shutdown =>
    rw [goal] at shutdown
    cases shutdown
  | goesOn leaving =>
    obtain ⟨g, stage, number⟩ := c
    dsimp only at leaving h
    cases h <;> cases leaving

/-- A call whose request is carried out has sent it, or it is refused. -/
theorem Pursues.answered {topic : Topic} {what : Ask}
    (h : s₀.Pursues deeds n method params c.stage c.number)
    (hc : (s₀.through deeds).call? n = some c) (asking : c.stage = .asking topic)
    (whole : topic = .main → what = .request method params)
    (carried : Carried (s₀.through deeds) (s₀.through (deeds ++ [.act .serve])) n topic what) :
    ∃ d, (s₀.through (deeds ++ [.act .serve])).call? n = some d ∧
      s₀.Pursues (deeds ++ [.act .serve]) n method params d.stage d.number := by
  obtain ⟨g, stage, number⟩ := c
  dsimp only at asking h
  subst asking
  cases h
  obtain rfl := whole rfl
  obtain ⟨a, calls, result⟩ := carried.answered
  have found : (s₀.through (deeds ++ [.act .serve])).call? n =
      some (Call.answered ⟨g, .asking .main, none⟩ .main a) := by
    have same : (s₀.through (deeds ++ [.act .serve])).call? n =
        ((s₀.through deeds).answer n .main a).call? n := by
      rw [call?, calls, call?]
    rw [same, call?_answer, if_pos rfl, hc, Option.map_some, if_pos rfl]
  refine ⟨_, found, ?_⟩
  rcases result with ⟨method', params', same, rfl, -, -, sent⟩ | ⟨e, rfl, refused⟩ | ⟨-, other⟩
  · cases same
    refine .granted ⟨deeds, [], rfl, rfl, ?_, ?_, sent⟩
    · rw [number?, hc, Option.bind_some]
    · rw [number?, found]
      rfl
  · obtain ⟨rfl, closed⟩ := refused method params rfl
    refine .refused (.terminated (List.append_nil _).symm closed ?_)
    intro id none
    cases none
  · exact absurd rfl (other method params)

/-- What holds in every run of a session. -/
structure Correlated (s : Session) (deeds : List Deed) : Prop where
  lively : (s.through deeds).Lively
  traced : s.Traced deeds
  pursues : ∀ n c method params, (s.through deeds).call? n = some c →
    c.goal = .request method params → s.Pursues deeds n method params c.stage c.number

theorem Correlated.pursues_snoc (h : s₀.Correlated deeds) (d : Deed) {c' : Call}
    (found : (s₀.through (deeds ++ [d])).call? n = some c')
    (goal : c'.goal = .request method params) :
    s₀.Pursues (deeds ++ [d]) n method params c'.stage c'.number := by
  have accounted := h.lively.accounted
  rw [through_snoc] at found
  rcases call?_of_undergo accounted found with ⟨c, hc, evolves⟩ | ⟨-, goal', -, rfl⟩
  · rw [evolves.goal] at goal
    have owned := accounted.owned n c hc
    have pursues := h.pursues n c method params hc goal
    -- Where the call is not touched, nothing has to be said.
    have kept : c' = c → s₀.Pursues (deeds ++ [d]) n method params c'.stage c'.number := by
      rintro rfl
      exact pursues.snoc d
    have happened := happened accounted.table.numbered d
    generalize after : ((s₀.through deeds).undergo d).1 = s' at happened found
    cases happened with
    | resumed m =>
      by_cases same : n = m
      · subst same
        rcases turned_resume hc with ⟨idle, -⟩ | ⟨stage, given, turn, turned⟩
        · rw [idle, hc] at found
          exact kept (Option.some.inj found).symm
        · rw [turned.call] at found
          rw [← Option.some.inj found]
          exact pursues.turn goal hc h.traced owned turn
      · obtain ⟨f, -, calls⟩ := (byCall_resume (s₀.through deeds) m).calls
        rw [calls, if_neg same, hc] at found
        exact kept (Option.some.inj found).symm
    | @asked m topic what _ queue carried =>
      obtain ⟨a, calls, -⟩ := carried.answered
      have looked : s'.call? n = ((s₀.through deeds).answer m topic a).call? n := by
        rw [call?, calls, call?]
      by_cases same : n = m
      · subst same
        rcases owned.asked queue with gone | ⟨asking, -, -, opens⟩
        · rw [looked, call?_answer, if_pos rfl, hc, Option.map_some] at found
          simp only [gone, reduceCtorEq, if_false] at found
          exact kept (Option.some.inj found).symm
        · have next : s' = s₀.through (deeds ++ [.act .serve]) := by rw [through_snoc, after]
          rw [next] at carried found
          have whole : topic = .main → what = .request method params := by
            intro main
            obtain ⟨phase, opens⟩ := opens main
            rw [goal] at opens
            exact (Opening.ask.inj opens).symm
          obtain ⟨e, he, result⟩ := pursues.answered hc asking whole carried
          rw [he] at found
          rw [← Option.some.inj found]
          exact result
      · rw [looked, call?_answer, if_neg same, hc] at found
        exact kept (Option.some.inj found).symm
    | aside calls =>
      rw [call?, calls, ← call?, hc] at found
      exact kept (Option.some.inj found).symm
    | begun m goal =>
      rw [call?_begin_or, hc, Option.some_or] at found
      exact kept (Option.some.inj found).symm
    | abandoned m =>
      rw [call?_abandon, hc] at found
      split at found
      · have eq := Option.some.inj found
        dsimp only at eq
        split at eq
        · exact kept eq.symm
        · rw [← eq]
          exact .abandoned fun id own => (pursues.sends own).snoc _
      · exact kept (Option.some.inj found).symm
  · exact .ready

theorem Correlated.snoc (h : s₀.Correlated deeds) (d : Deed) : s₀.Correlated (deeds ++ [d]) := by
  refine ⟨?_, h.traced.snoc h.lively.accounted.table d, ?_⟩
  · rw [through_snoc]
    exact h.lively.undergo d
  · intro n c method params found goal
    exact h.pursues_snoc d found goal

theorem correlated_launch (language : String) (limit : Nat) (process : Option Nat) (clock : Nat)
    (deeds : List Deed) : (launch language limit process clock).Correlated deeds := by
  induction deeds using List.reverseRecOn with
  | nil =>
    refine ⟨lively_launch _ _ _ _, traced_launch _ _ _ _, ?_⟩
    intro n c method params found
    cases found
  | append_singleton deeds d ih => exact ih.snoc d

/-! ## Results -/

theorem returned_absorbAll (s : Session) (effects : List (Effect String)) :
    (s.absorbAll effects).2.filterMap Event.returned? = [] := by
  induction effects generalizing s with
  | nil => rfl
  | cons e effects ih =>
    simp only [absorbAll, Moved.after, List.filterMap_append, ih, List.append_nil]
    cases e <;> rfl

theorem returned_applied {α : Type} (s : Session) (o : Outcome String α) :
    (s.applied o).2.filterMap Event.returned? = [] :=
  returned_absorbAll _ _

theorem returned_serve (s : Session) : s.serve.2.filterMap Event.returned? = [] := by
  unfold serve
  split
  · rfl
  · split
    · split
      · rfl
      · exact returned_applied _ _
    · rename_i command rest _
      cases command with
      | ask n topic what => cases what <;> exact returned_applied _ _
      | cancel | close => exact returned_applied _ _

theorem returned_deliver (s : Session) : s.deliver.2.filterMap Event.returned? = [] := by
  unfold deliver
  split
  · rfl
  · split
    · exact returned_applied _ _
    · split
      · simp only [Moved.after, List.filterMap_append, returned_applied, List.append_nil]
        split <;> rfl
      · rfl

theorem returned_serverWrites (s : Session) (bytes : Bytes) :
    (s.serverWrites bytes).2.filterMap Event.returned? = [] := by
  have remarks : ∀ outcomes : List (Except Message.Fault Message),
      (outcomes.filterMap remark?).filterMap Event.returned? = [] := by
    intro outcomes
    rw [List.filterMap_filterMap, List.filterMap_eq_nil_iff]
    intro o _
    cases o <;> rfl
  simp only [serverWrites]
  split
  · exact remarks _
  · rw [List.filterMap_append, remarks]
    rfl

/-- Only a call that goes on is handed a result. -/
theorem returned_undergo (s : Session) {d : Deed} (other : ∀ m, d ≠ .act (.resume m)) :
    (s.undergo d).2.filterMap Event.returned? = [] := by
  have logs : ∀ lines : List Bytes, (lines.map fun l =>
      Event.logged (.error (complaintText l))).filterMap Event.returned? = [] := by
    intro lines
    rw [List.filterMap_map, List.filterMap_eq_nil_iff]
    intro l _
    rfl
  cases d with
  | begin | abandon | release => rfl
  | act a =>
    cases a with
    | resume m => exact absurd rfl (other m)
    | serve => exact returned_serve s
    | deliver => exact returned_deliver s
    | write =>
      simp only [undergo, step, write]
      split
      · rfl
      · split <;> rfl
    | serverWrites bytes => exact returned_serverWrites s bytes
    | serverComplains bytes =>
      simp only [undergo, step, serverComplains]
      split
      · rfl
      · exact logs _
    | serverEndsComplaints => exact logs _
    | serverCloses | serverStopsReading | processExits | advance => rfl

theorem result?_of_call? (found : s.call? n = some c) : s.result? n = c.stage.result? := by
  rw [result?, found, Option.bind_some, Call.result?_eq]

/-- A call that does not go on keeps its result, or has none. -/
theorem result?_undergo (h : s.Accounted) {d : Deed} (other : ∀ m, d ≠ .act (.resume m)) (n : Nat) :
    (s.undergo d).1.result? n = s.result? n := by
  have happened := happened h.table.numbered d
  generalize (s.undergo d).1 = s' at happened ⊢
  cases happened with
  | resumed m => exact absurd rfl (other m)
  | @asked m topic what _ _ carried =>
    obtain ⟨a, calls, -⟩ := carried.answered
    have looked : s'.call? n = (s.answer m topic a).call? n := by
      rw [call?, calls, call?]
    rw [result?, looked, call?_answer, result?]
    split
    · cases s.call? n with
      | none => rfl
      | some c =>
        simp only [Option.map_some, Option.bind_some, Call.result?_eq]
        split
        · rename_i asking
          rw [asking]
          rfl
        · rfl
    · rfl
  | aside calls => rw [result?, call?, calls, ← call?, result?]
  | begun m goal =>
    rw [result?, call?_begin_or, result?]
    cases s.call? n with
    | none =>
      rw [Option.none_or]
      split <;> rfl
    | some c => rfl
  | abandoned m =>
    rw [result?, call?_abandon, result?]
    split
    · cases s.call? n with
      | none => rfl
      | some c =>
        simp only [Option.map_some, Option.bind_some]
        split
        · rfl
        · rename_i unfinished
          have none : c.result? = none := by simpa using unfinished
          rw [none]
          rfl
    · rfl

/-- A call is handed its result once. -/
theorem returns_undergo (h : s.Accounted) (d : Deed) (n : Nat) :
    ((s.undergo d).1.result? n).toList = (s.result? n).toList ++
      (((s.undergo d).2.filterMap Event.returned?).filter (·.1 = n)).map Prod.snd := by
  -- Only a call that goes on is handed anything.
  by_cases goesOn : ∃ m, d = .act (.resume m)
  · obtain ⟨m, rfl⟩ := goesOn
    have idle : s.resume m = (s, []) → ((s.undergo (.act (.resume m))).1.result? n).toList =
        (s.result? n).toList ++ (((s.undergo (.act (.resume m))).2.filterMap
          Event.returned?).filter (·.1 = n)).map Prod.snd := by
      intro idle
      simp [undergo, step, idle]
    cases hm : s.call? m with
    | none => exact idle (by rw [resume, hm])
    | some c =>
      rcases turned_resume hm with ⟨rests, -⟩ | ⟨stage, given, turn, turned⟩
      · exact idle rests
      · obtain ⟨f, -, calls⟩ := (byCall_resume s m).calls
        simp only [undergo, step, turned.returned]
        by_cases same : n = m
        · subst same
          rw [result?_of_call? turned.call, result?_of_call? hm, turn.under_way.2]
          cases stage.result? <;> simp
        · rw [result?, calls, if_neg same, ← result?]
          cases stage.result? <;> simp [Ne.symm same]
  · have other : ∀ m, d ≠ .act (.resume m) := fun m same => goesOn ⟨m, same⟩
    rw [result?_undergo h other, returned_undergo s other]
    simp

/-- What a call is handed in a run is its result. -/
theorem returns_eq (h : s.Accounted) (fresh : s.result? n = none) (deeds : List Deed) :
    s.returns n deeds = ((s.through deeds).result? n).toList := by
  induction deeds using List.reverseRecOn with
  | nil => rw [returns, through_nil, fresh, Option.toList_none]
  | append_singleton deeds d ih =>
    have next := returns_undergo (h.through deeds) d n
    rw [returns_append, ih, through_snoc, next]
    simp [returns]

/-- Every request of a session is correlated with its own answer.  In a run from the launch
a call with a request is handed its result once, and the result is what its fate says.  The
number under which the request is sent belongs to no other call.  When the call has
returned, its number is not pending any more, or giving it up is still in the queue.  And a
call whose caller stays returns as soon as it gets its turns. -/
theorem request_returns_own_answer (language : String) (limit : Nat) (process : Option Nat)
    (clock : Nat) (deeds : List Deed) (n : Nat) (c : Call) (method : String) (params : Json)
    (found : ((launch language limit process clock).through deeds).call? n = some c)
    (goal : c.goal = .request method params) :
    (launch language limit process clock).returns n deeds = c.result?.toList ∧
      (∀ r, c.result? = some r →
        (launch language limit process clock).Fate deeds n method c.number r) ∧
      (∀ id, c.number = some id →
        (launch language limit process clock).Sends deeds n id method params ∧
          ∀ m d, ((launch language limit process clock).through deeds).call? m = some d →
            d.number = some id → m = n) ∧
      (∀ id, c.number = some id → c.result?.isSome = true →
        id ∉ ((launch language limit process clock).through deeds).dispatcher.pending ∨
          .cancel id ∈ ((launch language limit process clock).through deeds).commands) ∧
      (c.stage ≠ .abandoned → ∀ more,
        ((launch language limit process clock).through deeds).Attended n more →
          ∃ r, ((launch language limit process clock).through (deeds ++ more)).result? n =
            some r) := by
  have correlated := correlated_launch language limit process clock
  have accounted := (correlated deeds).lively.accounted
  have owned := accounted.owned n c found
  have pursues := (correlated deeds).pursues n c method params found goal
  have handed := returns_eq (n := n) (accounted_launch language limit process clock) rfl deeds
  refine ⟨?_, ?_, ?_, ?_, ?_⟩
  · rw [handed, result?, found, Option.bind_some]
  · intro r result
    obtain ⟨g, stage, number⟩ := c
    dsimp only at pursues
    cases pursues with
    | finished sends fate =>
      cases result
      exact fate
    | ready | asking | refused | granted | waiting | abandoned => cases result
  · intro id own
    refine ⟨pursues.sends own, ?_⟩
    intro m d hd theirs
    exact accounted.distinct m n d c id hd found theirs own
  · intro id own result
    apply owned.spent id own
    · obtain ⟨g, stage, number⟩ := c
      cases stage <;> first | rfl | cases result
    · intro gone
      simp [Call.result?, gone] at result
  · intro present more attended
    obtain ⟨c₁, hc₁, beyond⟩ := reach_of_attended (correlated deeds).lively found attended
    obtain ⟨c₂, hc₂, stays⟩ := present_through accounted found present attended.stays
    obtain ⟨c₃, hc₃, kept, -⟩ := reach_through accounted found more
    rw [← through_append] at hc₁ hc₂ hc₃
    obtain rfl : c₁ = c₂ := Option.some.inj (hc₁.symm.trans hc₂)
    obtain rfl : c₁ = c₃ := Option.some.inj (hc₁.symm.trans hc₃)
    have pursues := (correlated (deeds ++ more)).pursues n c₁ method params hc₁ (kept.trans goal)
    rw [result?_of_call? hc₁]
    obtain ⟨g, stage, number⟩ := c₁
    dsimp only at beyond stays pursues ⊢
    cases pursues with
    | finished => exact ⟨_, rfl⟩
    | abandoned => exact absurd rfl stays
    | ready | asking | refused | granted | waiting => cases beyond

/-- Two callers with a request each. -/
def twoCallers : List Deed :=
  [.begin 0 (.request "first" .null), .begin 1 (.request "second" .null)]

/-- Both requests are sent; the answer to the first one comes after its time has run out and
before its number is given up. -/
def lateAnswer : List Deed :=
  [.act (.resume 0), .act .serve, .act (.resume 0), .act (.advance 600),
    .act (.resume 1), .act .serve, .act (.resume 1), .act (.advance 400), .act (.resume 0),
    .act (.serverWrites (Message.encode (.response 1 (.ok (.bool false))))),
    .act (.serverWrites (Message.encode (.response 2 (.ok (.bool true))))),
    .act .deliver, .act .deliver, .act .serve, .act (.resume 1)]

theorem request_returns_own_answer_late :
    ∃ c d, ((launch "rust" 1000 none 0).through (twoCallers ++ lateAnswer)).call? 0 = some c ∧
      ((launch "rust" 1000 none 0).through (twoCallers ++ lateAnswer)).call? 1 = some d ∧
      (launch "rust" 1000 none 0).returns 0 (twoCallers ++ lateAnswer) =
        [.error (.timeout "first" 1)] ∧
      (launch "rust" 1000 none 0).returns 1 (twoCallers ++ lateAnswer) = [.ok (.bool true)] ∧
      (launch "rust" 1000 none 0).Fate (twoCallers ++ lateAnswer) 0 "first" c.number
        (.error (.timeout "first" 1)) ∧
      (launch "rust" 1000 none 0).Fate (twoCallers ++ lateAnswer) 1 "second" d.number
        (.ok (.bool true)) ∧
      ((launch "rust" 1000 none 0).through twoCallers).Attended 0 lateAnswer := by
  have first : ((launch "rust" 1000 none 0).through (twoCallers ++ lateAnswer)).call? 0 =
      some ⟨.request "first" .null, .finished (.error (.timeout "first" 1)), some 1⟩ := by
    decide +kernel
  have second : ((launch "rust" 1000 none 0).through (twoCallers ++ lateAnswer)).call? 1 =
      some ⟨.request "second" .null, .finished (.ok (.bool true)), some 2⟩ := by
    decide +kernel
  obtain ⟨handed, fate, -⟩ := request_returns_own_answer "rust" 1000 none 0
    (twoCallers ++ lateAnswer) 0 _ "first" .null first rfl
  obtain ⟨handed', fate', -⟩ := request_returns_own_answer "rust" 1000 none 0
    (twoCallers ++ lateAnswer) 1 _ "second" .null second rfl
  refine ⟨_, _, first, second, handed, handed', fate _ rfl, fate' _ rfl, ?_⟩
  refine ⟨⟨[], [.act .serve], [.act (.advance 600), .act (.resume 1), .act .serve,
    .act (.resume 1), .act (.advance 400)], lateAnswer.drop 9, rfl, ?_, ?_⟩, ?_, ?_⟩
  · decide +kernel
  · decide +kernel
  · decide +kernel
  · decide +kernel

end LanguageClient.Session
