import RustTS.Contract.Codec
import RustTS.Lib.IndexMap
import RustTS.Lib.SwapRemove
import RustTS.Lib.Transition

/-! The handlers of a script's events, which its prelude and the engine both list, and the
deliveries that run the engine's lists. -/
namespace RustTS.Runner
open Contract

/-- An event the engine lists, with a snapshot of its handlers. -/
structure Listened (F : Type) where
  event : Str
  handlers : List F
  deriving DecidableEq, Repr

/-- `ListenedEvents`. -/
abbrev ListenedEvents (F : Type) := List (Listened F)

namespace ListenedEvents
variable {F : Type} (events : ListenedEvents F)

def listens (event : Str) : Bool := events.any fun listened => listened.event = event

/-- The current handlers of an event. -/
def handlers (event : Str) : Option (List F) :=
  (events.find? fun listened => listened.event = event).map Listened.handlers

/-- Stores the list of an event, or forgets the event. -/
def record (event : Str) (handlers : Option (List F)) : ListenedEvents F :=
  match events.findIdx? fun listened => listened.event = event, handlers with
  | some position, some handlers =>
    events.modify position fun listened => { listened with handlers := handlers }
  | none, some handlers => events ++ [⟨event, handlers⟩]
  | some position, none => events.swapRemove position
  | none, none => events

end ListenedEvents

inductive HandlerMethod
  | on
  | off
  deriving DecidableEq, Repr

def HandlerMethod.name : HandlerMethod → Str
  | .on => "ctx.on".toList
  | .off => "ctx.off".toList

/-- What `ctx.on` and `ctx.off` throw: the texts of the prelude, or that the engine cannot read the
event's name, which is no Unicode text. -/
inductive HandlerError
  | typeError (message : Str)
  | conversion
  deriving DecidableEq, Repr

/-- The prelude's Map of handler lists, and the engine's copy. -/
structure EventLists (F : Type) where
  handlers : IndexMap JsString (List F)
  events : ListenedEvents F

namespace EventLists
variable {F : Type} [DecidableEq F] (s : EventLists F)

def empty : EventLists F := ⟨IndexMap.empty, []⟩

/-- The hook that hands an event's list to the engine, which takes a snapshot of it. -/
def setHandlers (event : JsString) (handlers : Option (List F)) :
    Except HandlerError Unit × EventLists F :=
  match event.toText with
  | none => (.error .conversion, s)
  | some event => (.ok (), { s with events := s.events.record event handlers })

/-- The arguments of a call, if they are a string and a function. -/
def expectHandler (method : HandlerMethod) (eventName : Option JsString) (handler : Option F) :
    Except HandlerError (JsString × F) :=
  match eventName with
  | none => .error (.typeError (method.name ++ " expects a string event name".toList))
  | some eventName =>
    match handler with
    | none => .error (.typeError (method.name ++ " expects a function handler".toList))
    | some handler => .ok (eventName, handler)

def on (eventName : JsString) (handler : F) : Except HandlerError Unit × EventLists F :=
  let list := (s.handlers.get? eventName).getD [] ++ [handler]
  { s with handlers := s.handlers.insert eventName list }.setHandlers eventName (some list)

def off (eventName : JsString) (handler : F) : Except HandlerError Unit × EventLists F :=
  match s.handlers.get? eventName with
  | none => (.ok (), s)
  | some list =>
    match list.idxOf? handler with
    | none => (.ok (), s)
    | some index =>
      let list := list.eraseIdx index
      if list = [] then
        { s with handlers := s.handlers.erase eventName }.setHandlers eventName none
      else
        { s with handlers := s.handlers.insert eventName list }.setHandlers eventName (some list)

/-- A call with any arguments; what is no string or no function is `none`. -/
def call (method : HandlerMethod) (eventName : Option JsString) (handler : Option F) :
    Except HandlerError Unit × EventLists F :=
  match expectHandler method eventName handler with
  | .error error => (.error error, s)
  | .ok (eventName, handler) =>
    match method with
    | .on => s.on eventName handler
    | .off => s.off eventName handler

end EventLists

/-- A completed call. -/
structure Registration (F : Type) where
  method : HandlerMethod
  event : JsString
  handler : F

/-- The registrations of an event that remain after completed calls, in order: `off` takes the
earliest one of its function away. -/
def registrations {F : Type} [DecidableEq F] (event : JsString) (completed : List (Registration F)) :
    List F :=
  completed.foldl (fun list call =>
    if call.event = event then
      match call.method with
      | .on => list ++ [call.handler]
      | .off => list.erase call.handler
    else list) []

/-- A delivery to the script: the handlers entered so far, and those left of the snapshot. -/
structure Delivering (F : Type) where
  entered : List F
  rest : List F

/-- A script, the calls completed so far, and the delivery under way to it. -/
structure HandlerRun (F : Type) where
  lists : EventLists F
  completed : List (Registration F)
  delivery : Option (Delivering F)

/-- `ctx.on` and `ctx.off` calls may come at any time, from inside a handler too. A delivery takes
the engine's list, enters one handler after another, and ends with the list, or early: the operation
must stop, or the event cannot be encoded. -/
inductive HandlerStep (F : Type)
  | call (method : HandlerMethod) (eventName : Option JsString) (handler : Option F)
  | deliver (event : Str)
  | enter
  | finish (stopped : Bool)

namespace HandlerRun
variable {F : Type} [DecidableEq F] (s : HandlerRun F)

def new : HandlerRun F := ⟨.empty, [], none⟩

def next : HandlerStep F → Option (HandlerRun F)
  | .call method eventName handler =>
    let (result, lists) := s.lists.call method eventName handler
    let s := { s with lists := lists }
    match result, eventName, handler with
    | .ok _, some event, some handler =>
      some { s with completed := s.completed ++ [⟨method, event, handler⟩] }
    | _, _, _ => some s
  | .deliver event =>
    match s.delivery with
    | some _ => none
    | none =>
      match s.lists.events.handlers event with
      | none => some s
      | some handlers => some { s with delivery := some ⟨[], handlers⟩ }
  | .enter =>
    match s.delivery with
    | some ⟨entered, handler :: rest⟩ =>
      some { s with delivery := some ⟨entered ++ [handler], rest⟩ }
    | _ => none
  | .finish stopped =>
    match s.delivery with
    | some ⟨_, rest⟩ => if rest = [] ∨ stopped then some { s with delivery := none } else none
    | none => none

def Step (s : HandlerRun F) (step : HandlerStep F) (t : HandlerRun F) : Prop := s.next step = some t

end HandlerRun

namespace ListenedEvents
variable {F : Type} {events : ListenedEvents F}

/-- Each event is listed once. -/
def Unique (events : ListenedEvents F) : Prop := (events.map Listened.event).Nodup

theorem handlers_absent {event : Str} (h : ∀ listened ∈ events, listened.event ≠ event) :
    events.handlers event = none := by
  unfold handlers
  rw [Option.map_eq_none_iff, List.find?_eq_none]
  simpa using h

theorem handlers_middle {pre post : ListenedEvents F} {x : Listened F}
    (h : ∀ listened ∈ pre, listened.event ≠ x.event) (event : Str) :
    handlers (pre ++ x :: post) event =
      if event = x.event then some x.handlers else handlers (pre ++ post) event := by
  induction pre with
  | nil =>
    unfold handlers
    rw [List.nil_append, List.nil_append, List.find?_cons]
    by_cases hx : event = x.event
    · simp [hx]
    · simp [hx, Ne.symm hx]
  | cons y pre ih =>
    have hy : y.event ≠ x.event := h y List.mem_cons_self
    have hrest := ih fun listened hmem => h listened (List.mem_cons_of_mem _ hmem)
    unfold handlers at hrest ⊢
    rw [List.cons_append, List.cons_append, List.find?_cons, List.find?_cons]
    by_cases hevent : y.event = event
    · have hx : event ≠ x.event := fun heq => hy (hevent.trans heq)
      simp [hevent, hx]
    · simpa [hevent] using hrest

private theorem handlers_perm {others : ListenedEvents F} (h : events.Unique) (hperm : events.Perm others)
    (event : Str) : events.handlers event = others.handlers event :=
  congrArg _ (List.find?_key_perm h hperm event)

private theorem listens_iff {event : Str} : events.listens event = true ↔ (events.handlers event).isSome := by
  unfold listens handlers
  rw [Option.isSome_map, List.find?_isSome, List.any_eq_true]

private theorem modify_middle {α : Type} (pre : List α) (x : α) (post : List α) (f : α → α) :
    (pre ++ x :: post).modify pre.length f = pre ++ f x :: post := by
  induction pre with
  | nil => rfl
  | cons y pre ih => exact congrArg (y :: ·) ih

theorem record_absent (h : events.Unique) {event : Str}
    (hposition : events.findIdx? (fun listened => listened.event = event) = none)
    (list : Option (List F)) :
    (events.record event list).Unique ∧ ∀ other, (events.record event list).handlers other =
      if other = event then list else events.handlers other := by
  have habsent : ∀ listened ∈ events, listened.event ≠ event := by
    simpa using List.findIdx?_eq_none_iff.mp hposition
  unfold record
  rw [hposition]
  cases list with
  | none =>
    refine ⟨h, fun other => ?_⟩
    split_ifs with hother
    · rw [hother]
      exact handlers_absent habsent
    · rfl
  | some list =>
    refine ⟨?_, fun other => ?_⟩
    · unfold Unique
      rw [List.map_append, List.map_cons, List.map_nil]
      refine List.Nodup.append h (List.nodup_singleton _) ?_
      rw [List.disjoint_singleton]
      intro hmem
      obtain ⟨listened, hlistened, heq⟩ := List.mem_map.mp hmem
      exact habsent listened hlistened heq
    · have hmiddle := @handlers_middle F events [] ⟨event, list⟩ habsent other
      rwa [List.append_nil] at hmiddle

/-- Recording the list of an event that is listed. -/
theorem record_listed {pre post : ListenedEvents F} {x : Listened F}
    (h : Unique (pre ++ x :: post))
    (hposition : (pre ++ x :: post).findIdx? (fun listened => listened.event = x.event) =
      some pre.length) (list : Option (List F)) :
    (record (pre ++ x :: post) x.event list).Unique ∧
      ∀ other, (record (pre ++ x :: post) x.event list).handlers other =
        if other = x.event then list else handlers (pre ++ x :: post) other := by
  have hnodup : (x.event :: (pre ++ post).map Listened.event).Nodup := by
    have hperm : ((pre ++ x :: post).map Listened.event).Perm
        ((x :: (pre ++ post)).map Listened.event) :=
      List.perm_middle.map _
    exact hperm.nodup_iff.mp h
  have hothers : ∀ listened ∈ pre ++ post, listened.event ≠ x.event := by
    intro listened hmem heq
    exact (List.nodup_cons.mp hnodup).1 (List.mem_map.mpr ⟨listened, hmem, heq⟩)
  have hpre : ∀ listened ∈ pre, listened.event ≠ x.event :=
    fun listened hmem => hothers listened (List.mem_append_left _ hmem)
  unfold record
  rw [hposition]
  cases list with
  | none =>
    have hswap := List.swapRemove_perm pre x post
    have hunique : Unique ((pre ++ x :: post).swapRemove pre.length) :=
      (hswap.map Listened.event).nodup_iff.mpr (List.nodup_cons.mp hnodup).2
    refine ⟨hunique, fun other => ?_⟩
    dsimp only
    rw [handlers_perm hunique hswap, handlers_middle hpre]
    split_ifs with hother
    · rw [hother]
      exact handlers_absent hothers
    · rfl
  | some list =>
    dsimp only
    rw [modify_middle]
    refine ⟨?_, fun other => ?_⟩
    · unfold Unique at h ⊢
      rw [List.map_append, List.map_cons] at h ⊢
      exact h
    · have hnew := @handlers_middle F pre post ⟨x.event, list⟩ hpre other
      rw [hnew, handlers_middle hpre]
      split_ifs <;> rfl

private theorem record_spec (h : events.Unique) (event : Str) (list : Option (List F)) :
    (events.record event list).Unique ∧ ∀ other, (events.record event list).handlers other =
      if other = event then list else events.handlers other := by
  cases hposition : events.findIdx? fun listened => listened.event = event with
  | none => exact record_absent h hposition list
  | some position =>
    obtain ⟨pre, x, post, rfl, rfl, hx⟩ := List.split_of_findIdx? hposition
    obtain rfl : x.event = event := by simpa using hx
    exact record_listed h hposition list

end ListenedEvents

/-- Only an event with a handler is listed. -/
def listed {F : Type} (list : List F) : Option (List F) := if list = [] then none else some list

@[simp] theorem listed_nil {F : Type} : listed ([] : List F) = none := rfl

theorem listed_of_ne {F : Type} {list : List F} (h : list ≠ []) : listed list = some list := if_neg h

private theorem listed_getD {F : Type} (list : List F) : (listed list).getD [] = list := by
  unfold listed
  split_ifs with h
  · exact h.symm
  · rfl

private theorem listed_isSome {F : Type} {list : List F} : (listed list).isSome ↔ list ≠ [] := by
  unfold listed
  split_ifs with h <;> simp [h]

section Registrations
variable {F : Type} [DecidableEq F]

/-- What a completed call makes of its event's registrations. -/
def HandlerMethod.change : HandlerMethod → List F → F → List F
  | .on, list, handler => list ++ [handler]
  | .off, list, handler => list.erase handler

theorem registrations_snoc (event : JsString) (completed : List (Registration F))
    (call : Registration F) :
    registrations event (completed ++ [call]) =
      if call.event = event then call.method.change (registrations event completed) call.handler
      else registrations event completed := by
  unfold registrations
  rw [List.foldl_append, List.foldl_cons, List.foldl_nil]
  split_ifs
  · cases call.method <;> rfl
  · rfl

/-- The prelude and the engine have the registrations that completed calls left: of each event they
list, and no call completed on a name that is no Unicode text changes anything. -/
structure EventLists.Mirrors (s : EventLists F) (completed : List (Registration F)) : Prop where
  unique : s.events.Unique
  prelude : ∀ event, s.handlers.get? (.ofText event) = listed (registrations (.ofText event) completed)
  engine : ∀ event, s.events.handlers event = listed (registrations (.ofText event) completed)
  unread : ∀ event, event.toText = none → registrations event completed = []

namespace EventLists
variable {s : EventLists F} {completed : List (Registration F)}

private theorem mirrors_new : (empty : EventLists F).Mirrors [] :=
  ⟨List.nodup_nil, fun _ => rfl, fun _ => rfl, fun _ _ => rfl⟩

/-- A call that changes its event's list and hands it over keeps the lists alike, whichever map the
prelude is left with for the other events. -/
theorem Mirrors.change (h : s.Mirrors completed) {method : HandlerMethod} {event : Str} {handler : F}
    {list : List F} {handlers : IndexMap JsString (List F)}
    (hlist : method.change (registrations (.ofText event) completed) handler = list)
    (hself : handlers.get? (.ofText event) = listed list)
    (hothers : ∀ other, other ≠ .ofText event → handlers.get? other = s.handlers.get? other) :
    Mirrors ⟨handlers, s.events.record event (listed list)⟩
      (completed ++ [⟨method, .ofText event, handler⟩]) := by
  obtain ⟨hunique, hrecord⟩ := ListenedEvents.record_spec h.unique event (listed list)
  have hafter : ∀ other : Str,
      registrations (.ofText other) (completed ++ [⟨method, .ofText event, handler⟩]) =
        if other = event then list else registrations (.ofText other) completed := by
    intro other
    rw [registrations_snoc]
    by_cases hother : other = event
    · rw [hother, if_pos rfl, if_pos rfl]
      exact hlist
    · have hne : ¬ JsString.ofText event = .ofText other :=
        fun heq => hother (JsString.ofText_injective heq).symm
      rw [if_neg hne, if_neg hother]
  refine ⟨hunique, fun other => ?_, fun other => ?_, fun other hother => ?_⟩
  · rw [hafter]
    split_ifs with heq
    · rw [heq]
      exact hself
    · have hne : JsString.ofText other ≠ .ofText event := fun h' => heq (JsString.ofText_injective h')
      rw [hothers _ hne]
      exact h.prelude other
  · rw [hafter, hrecord]
    split_ifs with heq
    · rfl
    · exact h.engine other
  · have hne : ¬ JsString.ofText event = other := by
      rintro rfl
      simp [JsString.toText_ofText] at hother
    rw [registrations_snoc, if_neg hne]
    exact h.unread other hother

theorem Mirrors.same (h : s.Mirrors completed) {call : Registration F}
    (hsame : call.method.change (registrations call.event completed) call.handler =
      registrations call.event completed) : s.Mirrors (completed ++ [call]) := by
  have hafter : ∀ event, registrations event (completed ++ [call]) = registrations event completed := by
    intro event
    rw [registrations_snoc]
    split_ifs with hevent
    · rw [← hevent]
      exact hsame
    · rfl
  exact ⟨h.unique, fun event => by rw [hafter]; exact h.prelude event,
    fun event => by rw [hafter]; exact h.engine event, fun event => by rw [hafter]; exact h.unread event⟩

theorem Mirrors.elsewhere (h : s.Mirrors completed) {event : JsString} (htext : event.toText = none)
    {handlers : IndexMap JsString (List F)}
    (hothers : ∀ other, other ≠ event → handlers.get? other = s.handlers.get? other) :
    Mirrors ⟨handlers, s.events⟩ completed := by
  refine ⟨h.unique, fun other => ?_, h.engine, h.unread⟩
  have hne : JsString.ofText other ≠ event := by
    rintro rfl
    simp [JsString.toText_ofText] at htext
  rw [hothers _ hne]
  exact h.prelude other

/-- The lists after a call that gave this result. -/
def Kept (completed : List (Registration F)) (call : Registration F) :
    Except HandlerError Unit × EventLists F → Prop
  | (.ok _, s) => s.Mirrors (completed ++ [call])
  | (.error _, s) => s.Mirrors completed

theorem Mirrors.setHandlers (h : s.Mirrors completed) {method : HandlerMethod} {event : JsString}
    {handler : F} {list : List F} {handlers : IndexMap JsString (List F)}
    (hlist : ∀ text, event = .ofText text →
      method.change (registrations event completed) handler = list)
    (hself : handlers.get? event = listed list)
    (hothers : ∀ other, other ≠ event → handlers.get? other = s.handlers.get? other) :
    Kept completed ⟨method, event, handler⟩
      (EventLists.setHandlers ⟨handlers, s.events⟩ event (listed list)) := by
  unfold EventLists.setHandlers
  cases htext : event.toText with
  | none => exact h.elsewhere htext hothers
  | some text =>
    obtain rfl := JsString.ofText_of_toText htext
    exact h.change (hlist text rfl) hself hothers

theorem Mirrors.on (h : s.Mirrors completed) (event : JsString) (handler : F) :
    Kept completed ⟨.on, event, handler⟩ (s.on event handler) := by
  unfold EventLists.on
  set list := (s.handlers.get? event).getD [] ++ [handler] with hlist
  have hlisted : listed list = some list := listed_of_ne (by simp [hlist])
  dsimp only
  rw [← hlisted]
  apply h.setHandlers
  · rintro text rfl
    rw [hlist, h.prelude, listed_getD]
    rfl
  · rw [IndexMap.get?_insert_self, hlisted]
  · exact fun other hother => IndexMap.get?_insert_of_ne _ _ hother

theorem Mirrors.missing (h : s.Mirrors completed) {event : JsString}
    (hmissing : s.handlers.get? event = none) : registrations event completed = [] := by
  cases htext : event.toText with
  | none => exact h.unread event htext
  | some text =>
    obtain rfl := JsString.ofText_of_toText htext
    rw [h.prelude] at hmissing
    by_contra hne
    rw [listed_of_ne hne] at hmissing
    cases hmissing

theorem Mirrors.found (h : s.Mirrors completed) {text : Str} {list : List F}
    (hfound : s.handlers.get? (.ofText text) = some list) :
    registrations (.ofText text) completed = list := by
  have hlisted := h.prelude text
  rw [hfound] at hlisted
  unfold listed at hlisted
  split_ifs at hlisted
  exact (Option.some.inj hlisted).symm

/-- `off` takes away what the prelude finds first, which is the earliest registration. -/
theorem Mirrors.off (h : s.Mirrors completed) (event : JsString) (handler : F) :
    Kept completed ⟨.off, event, handler⟩ (s.off event handler) := by
  unfold EventLists.off
  cases hlist : s.handlers.get? event with
  | none =>
    apply h.same
    rw [h.missing hlist]
    rfl
  | some list =>
    have herase := list.erase_eq_eraseIdx handler
    cases hindex : list.idxOf? handler with
    | none =>
      rw [hindex] at herase
      simp only [hindex]
      apply h.same
      cases htext : event.toText with
      | none =>
        rw [h.unread event htext]
        rfl
      | some text =>
        obtain rfl := JsString.ofText_of_toText htext
        rw [h.found hlist]
        exact herase
    | some index =>
      rw [hindex] at herase
      have hchange : ∀ text, event = .ofText text →
          HandlerMethod.off.change (registrations event completed) handler = list.eraseIdx index := by
        rintro text rfl
        rw [h.found hlist]
        exact herase
      simp only [hindex]
      split_ifs with hempty
      · have hself := s.handlers.get?_erase_self event
        rw [← listed_nil, ← hempty] at hself
        have hkept := h.setHandlers hchange hself fun other hother => s.handlers.get?_erase_of_ne hother
        rwa [hempty, listed_nil] at hkept
      · have hlisted := listed_of_ne hempty
        rw [← hlisted]
        apply h.setHandlers hchange
        · rw [IndexMap.get?_insert_self, hlisted]
        · exact fun other hother => IndexMap.get?_insert_of_ne _ _ hother

theorem Mirrors.call (h : s.Mirrors completed) (method : HandlerMethod) (event : JsString)
    (handler : F) :
    Kept completed ⟨method, event, handler⟩ (s.call method (some event) (some handler)) := by
  cases method with
  | on => exact h.on event handler
  | off => exact h.off event handler

end EventLists
end Registrations

open Transition

namespace HandlerRun
variable {F : Type} [DecidableEq F]

/-- The script's lists mirror its completed calls. -/
def Inv (s : HandlerRun F) : Prop := s.lists.Mirrors s.completed

theorem call_cases {s t : HandlerRun F} {method : HandlerMethod} {eventName : Option JsString}
    {handler : Option F} (h : s.Step (.call method eventName handler) t) :
    t = s ∨ ∃ event function result lists, eventName = some event ∧ handler = some function ∧
      s.lists.call method (some event) (some function) = (result, lists) ∧
      t = match result with
        | .ok _ => ⟨lists, s.completed ++ [⟨method, event, function⟩], s.delivery⟩
        | .error _ => ⟨lists, s.completed, s.delivery⟩ := by
  unfold Step next at h
  cases eventName with
  | none => exact .inl (Option.some.inj h).symm
  | some event =>
    cases handler with
    | none => exact .inl (Option.some.inj h).symm
    | some function =>
      cases hcall : s.lists.call method (some event) (some function) with
      | mk result lists =>
        simp only [hcall] at h
        refine .inr ⟨event, function, result, lists, rfl, rfl, hcall, ?_⟩
        cases result <;> exact (Option.some.inj h).symm

theorem inv_step : Preserves (Step (F := F)) Inv := by
  intro s step t h hstep
  cases step with
  | call method eventName handler =>
    obtain rfl | ⟨event, function, result, lists, rfl, rfl, hcall, rfl⟩ := call_cases hstep
    · exact h
    · have hkept := EventLists.Mirrors.call h method event function
      rw [hcall] at hkept
      cases result <;> exact hkept
  | deliver event =>
    unfold Step next at hstep
    dsimp only at hstep
    split at hstep
    · cases hstep
    · split at hstep <;> cases hstep <;> exact h
  | enter =>
    unfold Step next at hstep
    dsimp only at hstep
    split at hstep <;> cases hstep
    exact h
  | finish stopped =>
    unfold Step next at hstep
    dsimp only at hstep
    split at hstep
    · split_ifs at hstep
      cases hstep
      exact h
    · cases hstep

/-- The registrations of an event that remain. -/
def registered (s : HandlerRun F) (event : Str) : List F :=
  registrations (.ofText event) s.completed

theorem inv_run {steps : List (HandlerStep F)} {s : HandlerRun F} (h : Run Step new steps s) :
    s.Inv :=
  h.invariant inv_step EventLists.mirrors_new

theorem deliver_begins {s t : HandlerRun F} (h : s.Inv) {event : Str} (hstep : s.Step (.deliver event) t) :
    (s.registered event = [] ∧ t = s) ∨
      (s.registered event ≠ [] ∧ t.delivery = some ⟨[], s.registered event⟩) := by
  have hengine := h.engine event
  unfold Step next at hstep
  dsimp only at hstep
  unfold registered
  unfold listed at hengine
  split at hstep
  · cases hstep
  · rw [hengine] at hstep
    split_ifs at hstep with hempty
    · exact .inl ⟨hempty, (Option.some.inj hstep).symm⟩
    · refine .inr ⟨hempty, ?_⟩
      rw [← Option.some.inj hstep]

/-- A delivery under way keeps the list it began with, whatever the handlers call. -/
def Delivers (list : List F) (s : HandlerRun F) : Prop :=
  ∀ d, s.delivery = some d → d.entered ++ d.rest = list

theorem delivers_step {list : List F} {s t : HandlerRun F} {step : HandlerStep F}
    (h : s.Delivers list) (hstep : s.Step step t) (hother : ∀ event, step ≠ .deliver event) :
    t.Delivers list := by
  cases step with
  | call method eventName handler =>
    obtain rfl | ⟨event, function, result, lists, -, -, -, rfl⟩ := call_cases hstep
    · exact h
    · cases result <;> exact h
  | deliver event => exact absurd rfl (hother event)
  | enter =>
    unfold Step next at hstep
    dsimp only at hstep
    split at hstep
    · rename_i entered handler rest hdelivery
      have hlist := h _ hdelivery
      rw [← Option.some.inj hstep]
      intro d hd
      rw [← Option.some.inj hd, ← hlist, List.append_assoc]
      rfl
    · cases hstep
  | finish stopped =>
    unfold Step next at hstep
    dsimp only at hstep
    split at hstep
    · split_ifs at hstep
      rw [← Option.some.inj hstep]
      intro d hd
      cases hd
    · cases hstep

private theorem delivers_run {list : List F} {steps : List (HandlerStep F)} {s t : HandlerRun F}
    (h : Run Step s steps t) (hs : s.Delivers list) (hother : ∀ event, .deliver event ∉ steps) :
    t.Delivers list := by
  induction h with
  | nil => exact hs
  | cons hstep _ ih =>
    refine ih ?_ fun event hmem => hother event (List.mem_cons_of_mem _ hmem)
    apply delivers_step hs hstep
    rintro event rfl
    exact hother event List.mem_cons_self

private theorem finish_unstopped {s t : HandlerRun F} (h : s.Step (.finish false) t) {d : Delivering F}
    (hd : s.delivery = some d) : d.rest = [] := by
  unfold Step next at h
  dsimp only at h
  rw [hd] at h
  dsimp only at h
  split at h
  next hrest => simpa using hrest
  next => cases h

/-- **The engine's handler lists mirror the script's.** In any run of calls and deliveries the
engine has, of every event, the registrations that completed calls left, in order, and lists the
event if there are any; a delivery enters these of the moment it began, in order, all of them
unless it is stopped. -/
theorem handler_lists_mirror {steps : List (HandlerStep F)} {s : HandlerRun F}
    (h : Run Step new steps s) (event : Str) :
    s.lists.events.handlers event =
        (if s.registered event = [] then none else some (s.registered event)) ∧
      (s.lists.events.listens event = true ↔ s.registered event ≠ []) ∧
      ∀ t, s.Step (.deliver event) t →
        (s.registered event = [] ∧ t = s) ∨
          (s.registered event ≠ [] ∧ t.delivery = some ⟨[], s.registered event⟩ ∧
            ∀ more u d, Run Step t more u → (∀ other, .deliver other ∉ more) → u.delivery = some d →
              d.entered ++ d.rest = s.registered event ∧
                ∀ v, u.Step (.finish false) v → d.entered = s.registered event) := by
  have hinv := inv_run h
  have hengine := hinv.engine event
  refine ⟨hengine, ?_, fun t ht => ?_⟩
  · rw [ListenedEvents.listens_iff, hengine]
    exact listed_isSome
  · obtain hnone | ⟨hsome, hbegun⟩ := deliver_begins hinv ht
    · exact .inl hnone
    · refine .inr ⟨hsome, hbegun, fun more u d hrun hother hd => ?_⟩
      have hstart : t.Delivers (s.registered event) := by
        intro d hd
        rw [← Option.some.inj (hbegun.symm.trans hd)]
        rfl
      have hlist := delivers_run hrun hstart hother d hd
      refine ⟨hlist, fun v hv => ?_⟩
      have hrest := finish_unstopped hv hd
      rwa [hrest, List.append_nil] at hlist

/-- A function registered twice and removed once, and then from inside the delivery. -/
theorem handler_lists_mirror_twice :
    ∃ s t u : HandlerRun Nat, ∃ d : Delivering Nat,
      Run Step new [.call .on (some (.ofText ['x'])) (some 1), .call .on (some (.ofText ['x'])) (some 2),
        .call .on (some (.ofText ['x'])) (some 1), .call .off (some (.ofText ['x'])) (some 1)] s ∧
      s.lists.events.handlers ['x'] = some [2, 1] ∧ s.Step (.deliver ['x']) t ∧
      Run Step t [.enter, .call .off (some (.ofText ['x'])) (some 1), .enter] u ∧
      u.delivery = some d ∧ d.entered = [2, 1] ∧ u.registered ['x'] = [2] := by
  have hs : Run Step (new (F := Nat)) [.call .on (some (.ofText ['x'])) (some 1),
      .call .on (some (.ofText ['x'])) (some 2), .call .on (some (.ofText ['x'])) (some 1),
      .call .off (some (.ofText ['x'])) (some 1)] _ :=
    .cons rfl (.cons rfl (.cons rfl (.single rfl)))
  obtain ⟨hlists, -, hdelivery⟩ := handler_lists_mirror hs ['x']
  obtain ⟨hempty, -⟩ | ⟨-, -, hentered⟩ := hdelivery _ rfl
  · cases hempty
  · obtain ⟨-, hall⟩ := hentered [.enter, .call .off (some (.ofText ['x'])) (some 1), .enter] _ _
      (.cons rfl (.cons rfl (.single rfl))) (by simp) rfl
    exact ⟨_, _, _, _, hs, hlists, rfl, .cons rfl (.cons rfl (.single rfl)), rfl, hall _ rfl, rfl⟩

end HandlerRun

end RustTS.Runner
