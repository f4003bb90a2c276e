import Mathlib.Data.List.Nodup
import Mathlib.Logic.Function.Basic
import RustTS.Contract.HostResolver
import RustTS.Lib.Transition

/-! The Promises scripts await on async host functions: one script version's scope, its
resolvers on any threads, and the engine that polls and cancels it. A step of the protocol
is what one thread does without another's effect in between. -/
namespace RustTS.Runner
open Contract

/-- How a Promise was settled; a reason is the message of its `Error`. -/
inductive PromiseResult (Reply : Type)
  | fulfilled (reply : Reply)
  | rejected (reason : String)
  deriving DecidableEq, Repr

/-- `Scope`. A waiting Promise is known by the id of its call, and keeps the name of its
contract. -/
structure Scope (Reply : Type) where
  inbox : ReplyInbox Reply
  pending : CallId → Option String
  nextId : CallId

variable {Reply : Type}

namespace Scope

protected def default : Scope Reply := ⟨.default, fun _ => none, 0⟩

def insert (contract : String) (scope : Scope Reply) : Scope Reply :=
  { scope with
    pending := Function.update scope.pending scope.nextId (some contract)
    nextId := scope.nextId + 1 }

def release (id : CallId) (scope : Scope Reply) : Scope Reply :=
  { scope with pending := Function.update scope.pending id none }

/-- `HostPromises::cancel`. -/
def cancel (scope : Scope Reply) : Scope Reply :=
  { scope with inbox := scope.inbox.cancel, pending := fun _ => none }

end Scope

/-- What JavaScript makes of one settlement: whether the reply converted, or the reason it
did not, and whether making the reason and calling the Promise function succeeded. -/
structure SettleRun where
  converted : Except String Unit
  called : Except VmError Unit
  deriving Repr

/-- What `PendingPromise::settle` calls the Promise function with. -/
def PendingPromise.settle {Reply : Type} (contract : String) (run : SettleRun) :
    Settlement Reply → PromiseResult Reply
  | .resolved reply =>
    match run.converted with
    | .ok _ => .fulfilled reply
    | .error reason => .rejected reason
  | .rejected message => .rejected message
  | .dropped => .rejected
    ("host function `" ++ contract ++ "` dropped its resolver without settling the call")

/-- One round of the loop of `HostPromises::poll`. -/
inductive PollRound (Reply : Type)
  | empty
  | skipped (id : CallId)
  | settled (id : CallId) (settlement : Settlement Reply) (result : PromiseResult Reply)
  | failed (id : CallId) (error : VmError)
  deriving DecidableEq, Repr

def Scope.pollOne (run : SettleRun) (scope : Scope Reply) : PollRound Reply × Scope Reply :=
  match scope.inbox.pop with
  | (none, _) => (.empty, scope)
  | (some (id, settlement), inbox) =>
    let popped := { scope with inbox := inbox }
    match scope.pending id with
    | none => (.skipped id, popped)
    | some contract =>
      match run.called with
      | .ok _ => (.settled id settlement (PendingPromise.settle contract run settlement),
          popped.release id)
      | .error error => (.failed id error, popped.release id)

/-- How the Promise of a call came to be settled. -/
inductive SettledBy (Reply : Type)
  | handler (message : String)
  | answer (settlement : Settlement Reply) (result : PromiseResult Reply)
  deriving DecidableEq, Repr

/-- A resolver is held by the handler or another thread, has passed the check of `resolve`
and encodes its value, or is gone. -/
inductive ResolverState
  | held
  | encoding
  | consumed
  deriving DecidableEq, Repr

/-- One scope, its resolvers and the handler that runs, with the settlements queued, the
Promises settled and the handler failures so far. -/
structure Protocol (Reply : Type) where
  scope : Scope Reply
  resolvers : CallId → ResolverState
  handler : Option CallId
  pushed : List (CallId × Settlement Reply)
  settled : List (CallId × SettledBy Reply)
  failures : List (CallId × String)

/-- The steps. A call while the scope is cancelled, or whose input does not convert, rejects
its Promise without joining the scope and is no step of it. -/
inductive ProtocolStep (Reply : Type)
  | call (contract : String)
  | returned (result : Except VmError Unit)
  | resolve (id : CallId)
  | encoded (id : CallId) (value : Encoded Reply)
  | reject (id : CallId) (error : VmError)
  | drop (id : CallId)
  | poll (run : SettleRun)
  | cancel

namespace Protocol

protected def default : Protocol Reply := ⟨.default, fun _ => .held, none, [], [], []⟩

def Held (p : Protocol Reply) (id : CallId) : Prop :=
  id < p.scope.nextId ∧ p.resolvers id = .held

/-- The engine's thread polls and cancels while no handler runs, and resolvers are settled
once. -/
def Enabled (p : Protocol Reply) : ProtocolStep Reply → Prop
  | .call _ => p.handler = none ∧ p.scope.inbox.cancelled = false
  | .returned _ => p.handler ≠ none
  | .resolve id => p.Held id
  | .encoded id _ => id < p.scope.nextId ∧ p.resolvers id = .encoding
  | .reject id _ => p.Held id
  | .drop id => p.Held id
  | .poll _ => p.handler = none
  | .cancel => p.handler = none

def setResolver (id : CallId) (state : ResolverState) (p : Protocol Reply) : Protocol Reply :=
  { p with resolvers := Function.update p.resolvers id state }

/-- Sends a settlement of call `id`, and tells whether the inbox took it. -/
def send (id : CallId) (settlement : Settlement Reply) (p : Protocol Reply) :
    Protocol Reply × Bool :=
  match p.scope.inbox.push id settlement with
  | some inbox =>
    ({ p with
      scope := { p.scope with inbox := inbox }
      pushed := p.pushed ++ [(id, settlement)] }, true)
  | none => (p, false)

/-- The call of a handler: its Promise waits, and the handler has the resolver. -/
def call (contract : String) (p : Protocol Reply) : Protocol Reply :=
  { p with scope := p.scope.insert contract, handler := some p.scope.nextId }

/-- The return of the running handler, whose failure rejects the Promise if it still waits. -/
def returned (result : Except VmError Unit) (p : Protocol Reply) : Protocol Reply :=
  match p.handler, result with
  | none, _ => p
  | some _, .ok _ => { p with handler := none }
  | some id, .error error =>
    let p := { p with handler := none, failures := p.failures ++ [(id, error.toText)] }
    match p.scope.pending id with
    | none => p
    | some _ => { p with
        scope := p.scope.release id
        settled := p.settled ++ [(id, .handler error.toText)] }

def poll (run : SettleRun) (p : Protocol Reply) : Protocol Reply :=
  match p.scope.pollOne run with
  | (.settled id settlement result, scope) =>
    { p with scope := scope, settled := p.settled ++ [(id, .answer settlement result)] }
  | (_, scope) => { p with scope := scope }

/-- Performs a step; a resolver's last one returns to the host. -/
def next (step : ProtocolStep Reply) (p : Protocol Reply) : Protocol Reply × Option (Outcome Unit) :=
  match step with
  | .call contract => (p.call contract, none)
  | .returned result => (p.returned result, none)
  | .resolve id =>
    if p.scope.inbox.cancelled then (p.setResolver id .consumed, some (.err .cancelled))
    else (p.setResolver id .encoding, none)
  | .encoded id value =>
    let (p, queued) := (p.setResolver id .consumed).send id (HostResolver.settlement value)
    (p, some (HostResolver.resolved queued value))
  | .reject id error =>
    let (p, queued) := (p.setResolver id .consumed).send id (.rejected error.toText)
    (p, some (HostResolver.rejected queued))
  | .drop id => (((p.setResolver id .consumed).send id .dropped).1, none)
  | .poll run => (p.poll run, none)
  | .cancel => ({ p with scope := p.scope.cancel }, none)

/-- The steps that can happen. -/
def Step : Protocol Reply → ProtocolStep Reply × Option (Outcome Unit) → Protocol Reply → Prop :=
  Transition.Guarded (fun p l => p.Enabled l.1) (Transition.Machine next)

/-- The answers that settled a Promise, in the order they did. -/
def delivered (p : Protocol Reply) : List (CallId × Settlement Reply) :=
  p.settled.filterMap fun e => match e.2 with
    | .answer settlement _ => some (e.1, settlement)
    | .handler _ => none

/-- What every state of the protocol keeps. -/
structure Inv (p : Protocol Reply) : Prop where
  pendingBelow : ∀ {id}, p.scope.pending id ≠ none → id < p.scope.nextId
  settledBelow : ∀ e ∈ p.settled, e.1 < p.scope.nextId
  fresh : ∀ {id}, p.scope.nextId ≤ id → p.resolvers id = .held
  running : ∀ {id}, p.handler = some id →
    p.scope.inbox.cancelled = false ∧ p.scope.pending id ≠ none
  consumed : ∀ e ∈ p.pushed, p.resolvers e.1 = .consumed
  sent : p.scope.inbox.cancelled = false → ∀ {id}, p.resolvers id = .consumed →
    id ∈ p.pushed.map Prod.fst
  pushedOnce : (p.pushed.map Prod.fst).Nodup
  settledOnce : (p.settled.map Prod.fst).Nodup
  released : ∀ e ∈ p.settled, p.scope.pending e.1 = none
  queue : ∃ taken, p.pushed = taken ++ p.scope.inbox.ready ∧ p.delivered.Sublist taken
  failed : ∀ id message, (id, message) ∈ p.failures ↔ (id, .handler message) ∈ p.settled
  results : ∀ id settlement result, (id, .answer settlement result) ∈ p.settled →
    ∃ contract run, result = PendingPromise.settle contract run settlement
  retired : p.scope.inbox.cancelled = true →
    p.scope.inbox.ready = [] ∧ ∀ id, p.scope.pending id = none

variable {p q : Protocol Reply} {id : CallId}

theorem inv_default : (Protocol.default : Protocol Reply).Inv where
  pendingBelow h := absurd rfl h
  settledBelow _ h := by cases h
  fresh _ := rfl
  running h := by cases h
  consumed _ h := by cases h
  sent _ _ h := by cases h
  pushedOnce := .nil
  settledOnce := .nil
  released _ h := by cases h
  queue := ⟨[], rfl, .slnil⟩
  failed _ _ := by simp [Protocol.default]
  results _ _ _ h := by cases h
  retired h := by cases h

theorem Inv.call (h : p.Inv) (hc : p.scope.inbox.cancelled = false)
    (contract : String) : (p.call contract).Inv where
  pendingBelow {id} hp := by
    by_cases hid : id = p.scope.nextId
    · exact hid ▸ Nat.lt_succ_self _
    · exact Nat.lt_succ_of_lt (h.pendingBelow (by simpa [Protocol.call, Scope.insert, hid] using hp))
  settledBelow e he := Nat.lt_succ_of_lt (h.settledBelow e he)
  fresh hid := h.fresh (Nat.le_of_succ_le hid)
  running {id} hid := by
    obtain rfl : p.scope.nextId = id := Option.some.inj hid
    exact ⟨hc, by simp [Protocol.call, Scope.insert]⟩
  consumed := h.consumed
  sent := h.sent
  pushedOnce := h.pushedOnce
  settledOnce := h.settledOnce
  released e he := by
    have hne := Nat.ne_of_lt (h.settledBelow e he)
    simpa [Protocol.call, Scope.insert, hne] using h.released e he
  queue := h.queue
  failed := h.failed
  results := h.results
  retired ht := absurd ht (by simp [Protocol.call, Scope.insert, hc])

/-- Settling the Promise of a call that waits, by the failure of its handler or by the
answer taken from the queue. -/
theorem Inv.settle (h : p.Inv) (hp : p.scope.pending id ≠ none) {inbox : ReplyInbox Reply}
    {settledBy : SettledBy Reply} {failures : List (CallId × String)}
    (hc : inbox.cancelled = p.scope.inbox.cancelled)
    (hqueue : ∃ taken, p.pushed = taken ++ inbox.ready ∧
      ({ p with settled := p.settled ++ [(id, settledBy)] } : Protocol Reply).delivered.Sublist taken)
    (hfailed : ∀ k message, (k, message) ∈ failures ↔
      (k, .handler message) ∈ p.settled ++ [(id, settledBy)])
    (hresults : ∀ settlement result, settledBy = .answer settlement result →
      ∃ contract run, result = PendingPromise.settle contract run settlement) :
    ({ p with
      scope := { p.scope.release id with inbox := inbox }
      handler := none
      settled := p.settled ++ [(id, settledBy)]
      failures := failures } : Protocol Reply).Inv := by
  have hlt := h.pendingBelow hp
  have hmem {e} (he : e ∈ p.settled ++ [(id, settledBy)]) : e ∈ p.settled ∨ e = (id, settledBy) :=
    (List.mem_append.mp he).imp_right List.mem_singleton.mp
  have hlive : p.scope.inbox.cancelled = false := by
    by_contra hcancelled
    exact hp ((h.retired (by simpa using hcancelled)).2 id)
  exact {
    pendingBelow := fun {k} hk => by
      by_cases hid : k = id
      · exact hid ▸ hlt
      · exact h.pendingBelow (by simpa [Scope.release, hid] using hk)
    settledBelow := fun e he => by
      obtain he | rfl := hmem he
      · exact h.settledBelow e he
      · exact hlt
    fresh := h.fresh
    running := fun {k} hk => by cases hk
    consumed := h.consumed
    sent := fun _ => h.sent hlive
    pushedOnce := h.pushedOnce
    settledOnce := by
      have hnew : id ∉ p.settled.map Prod.fst := fun hid => by
        obtain ⟨e, he, rfl⟩ := List.mem_map.mp hid
        exact hp (h.released e he)
      rw [List.map_append]
      exact h.settledOnce.append (by simp) (by simpa using hnew)
    released := fun e he => by
      obtain he | rfl := hmem he
      · by_cases hid : e.1 = id
        · simp [Scope.release, hid]
        · simpa [Scope.release, hid] using h.released e he
      · simp [Scope.release]
    queue := hqueue
    failed := hfailed
    results := fun k settlement result hk => by
      obtain hk | hk := hmem hk
      · exact h.results k settlement result hk
      · exact hresults settlement result (congrArg Prod.snd hk).symm
    retired := fun ht => absurd (hlive.symm.trans (hc.symm.trans ht)) (by decide) }

theorem Inv.returned (h : p.Inv) (result : Except VmError Unit) : (p.returned result).Inv := by
  unfold Protocol.returned
  cases hh : p.handler with
  | none => exact h
  | some id =>
    cases result with
    | ok _ => exact { h with running := fun {id} h => by cases h }
    | error error =>
      obtain ⟨hc, hp⟩ := h.running hh
      obtain ⟨taken, htaken, hsub⟩ := h.queue
      dsimp only
      cases hpend : p.scope.pending id with
      | none => exact absurd hpend hp
      | some contract =>
        refine h.settle hp rfl ⟨taken, htaken, ?_⟩ (fun k message => ?_) (fun _ _ h => by cases h)
        · simpa [delivered] using hsub
        · simp [h.failed]

theorem Inv.setResolver (h : p.Inv) {state : ResolverState} (hlt : id < p.scope.nextId)
    (hnew : id ∉ p.pushed.map Prod.fst)
    (hs : p.scope.inbox.cancelled = false → state ≠ .consumed) : (p.setResolver id state).Inv where
  pendingBelow := h.pendingBelow
  settledBelow := h.settledBelow
  fresh {k} hk := by
    have hne : k ≠ id := fun heq => absurd (heq ▸ hlt) (Nat.not_lt.mpr hk)
    simpa [Protocol.setResolver, hne] using h.fresh hk
  running := h.running
  consumed e he := by
    have hne : e.1 ≠ id := fun heq => hnew (List.mem_map.mpr ⟨e, he, heq⟩)
    simpa [Protocol.setResolver, hne] using h.consumed e he
  sent hc {k} hk := by
    by_cases hid : k = id
    · exact absurd (by simpa [Protocol.setResolver, hid] using hk) (hs hc)
    · exact h.sent hc (by simpa [Protocol.setResolver, hid] using hk)
  pushedOnce := h.pushedOnce
  settledOnce := h.settledOnce
  released := h.released
  queue := h.queue
  failed := h.failed
  results := h.results
  retired := h.retired

theorem Inv.not_pushed (h : p.Inv) (hr : p.resolvers id ≠ .consumed) :
    id ∉ p.pushed.map Prod.fst := fun hmem => by
  obtain ⟨e, he, rfl⟩ := List.mem_map.mp hmem
  exact hr (h.consumed e he)

/-- The last step of a resolver: it is gone, and its settlement queued unless cancelled. -/
theorem Inv.send (h : p.Inv) (hlt : id < p.scope.nextId) (hr : p.resolvers id ≠ .consumed)
    (settlement : Settlement Reply) :
    ((p.setResolver id .consumed).send id settlement).1.Inv := by
  have hnew := h.not_pushed hr
  unfold Protocol.send
  cases hpush : (p.setResolver id .consumed).scope.inbox.push id settlement with
  | none =>
    have hc : p.scope.inbox.cancelled = true := ReplyInbox.push_eq_none.mp hpush
    exact h.setResolver hlt hnew fun hc' => by simp [hc] at hc'
  | some inbox =>
    obtain ⟨hc, rfl⟩ := ReplyInbox.push_eq_some.mp hpush
    have hc : p.scope.inbox.cancelled = false := hc
    obtain ⟨taken, htaken, hsub⟩ := h.queue
    exact {
      pendingBelow := h.pendingBelow
      settledBelow := h.settledBelow
      fresh := fun {k} hk => by
        have hne : k ≠ id := fun heq => absurd (heq ▸ hlt) (Nat.not_lt.mpr hk)
        simpa [Protocol.setResolver, hne] using h.fresh hk
      running := h.running
      consumed := fun e he => by
        by_cases hid : e.1 = id
        · simp [Protocol.setResolver, hid]
        · have he : e ∈ p.pushed := by
            obtain he | rfl := List.mem_append.mp he |>.imp_right List.mem_singleton.mp
            · exact he
            · exact absurd rfl hid
          simpa [Protocol.setResolver, hid] using h.consumed e he
      sent := fun _ {k} hk => by
        by_cases hid : k = id
        · simp [hid]
        · have hconsumed : p.resolvers k = .consumed := by
            simpa [Protocol.setResolver, hid] using hk
          rw [List.map_append]
          exact List.mem_append_left _ (h.sent hc hconsumed)
      pushedOnce := by
        change ((p.pushed ++ [(id, settlement)]).map Prod.fst).Nodup
        rw [List.map_append]
        exact h.pushedOnce.append (by simp) (by simpa using hnew)
      settledOnce := h.settledOnce
      released := h.released
      queue := ⟨taken, by
        change p.pushed ++ _ = taken ++ (p.scope.inbox.ready ++ _)
        rw [htaken, List.append_assoc], hsub⟩
      failed := h.failed
      results := h.results
      retired := fun ht => absurd (hc.symm.trans ht) (by decide) }

/-- An answer that is popped without settling a Promise: its call waits no more, or calling
the Promise function failed. -/
theorem Inv.pop (h : p.Inv) (hh : p.handler = none) {inbox : ReplyInbox Reply}
    {pending : CallId → Option String} (hc : inbox.cancelled = p.scope.inbox.cancelled)
    (hready : inbox.ready = p.scope.inbox.ready.tail)
    (hpending : ∀ id, p.scope.pending id = none → pending id = none) :
    ({ p with scope := { p.scope with inbox := inbox, pending := pending } } : Protocol Reply).Inv := by
  obtain ⟨taken, htaken, hsub⟩ := h.queue
  exact {
    pendingBelow := fun {k} hk => h.pendingBelow fun h0 => hk (hpending k h0)
    settledBelow := h.settledBelow
    fresh := h.fresh
    running := fun {k} hk => by
      have : p.handler = some k := hk
      rw [hh] at this
      cases this
    consumed := h.consumed
    sent := fun hc' => h.sent (hc ▸ hc')
    pushedOnce := h.pushedOnce
    settledOnce := h.settledOnce
    released := fun e he => hpending _ (h.released e he)
    queue := by
      cases hr : p.scope.inbox.ready with
      | nil => exact ⟨taken, by simpa [hready, hr] using htaken, hsub⟩
      | cons e rest =>
        refine ⟨taken ++ [e], by simpa [hready, hr] using htaken, ?_⟩
        exact hsub.trans (List.sublist_append_left _ _)
    failed := h.failed
    results := h.results
    retired := fun ht => by
      obtain ⟨hr, hnone⟩ := h.retired (hc ▸ ht)
      exact ⟨by rw [hready, hr]; rfl, fun k => hpending k (hnone k)⟩ }

theorem Inv.poll (h : p.Inv) (hh : p.handler = none) (run : SettleRun) : (p.poll run).Inv := by
  unfold Protocol.poll Scope.pollOne ReplyInbox.pop
  cases hr : p.scope.inbox.ready with
  | nil => exact h
  | cons e rest =>
    obtain ⟨id, settlement⟩ := e
    dsimp only [List.head?_cons, List.tail_cons]
    cases hp : p.scope.pending id with
    | none => exact h.pop hh rfl (by rw [hr]; rfl) fun _ h0 => h0
    | some contract =>
      cases hcalled : run.called with
      | error error =>
        refine h.pop hh rfl (by rw [hr]; rfl) fun k h0 => ?_
        by_cases hk : k = id <;> simp [hk, h0]
      | ok _ =>
        obtain ⟨taken, htaken, hsub⟩ := h.queue
        have hwaits : p.scope.pending id ≠ none := by simp [hp]
        have hc : (⟨p.scope.inbox.cancelled, rest⟩ : ReplyInbox Reply).cancelled =
            p.scope.inbox.cancelled := rfl
        have hfailed (k : CallId) (message : String) : (k, message) ∈ p.failures ↔
            (k, .handler message) ∈ p.settled ++ [(id,
              .answer settlement (PendingPromise.settle contract run settlement))] := by
          simp [h.failed]
        have hs := h.settle hwaits hc
          ⟨taken ++ [(id, settlement)], by simpa [hr] using htaken, ?_⟩ hfailed ?_
        · rw [← hh] at hs
          exact hs
        · simpa [delivered] using hsub.append (List.Sublist.refl [(id, settlement)])
        · intro s r heq
          cases heq
          exact ⟨contract, run, rfl⟩

theorem Inv.cancel (h : p.Inv) (hh : p.handler = none) :
    ({ p with scope := p.scope.cancel } : Protocol Reply).Inv := by
  obtain ⟨taken, htaken, hsub⟩ := h.queue
  exact {
    pendingBelow := fun {k} hk => absurd rfl hk
    settledBelow := h.settledBelow
    fresh := h.fresh
    running := fun {k} hk => by
      have : p.handler = some k := hk
      rw [hh] at this
      cases this
    consumed := h.consumed
    sent := fun hc => by cases hc
    pushedOnce := h.pushedOnce
    settledOnce := h.settledOnce
    released := fun _ _ => rfl
    queue := ⟨p.pushed, by simp [Scope.cancel, ReplyInbox.cancel],
      htaken ▸ hsub.trans (List.sublist_append_left _ _)⟩
    failed := h.failed
    results := h.results
    retired := fun _ => ⟨rfl, fun _ => rfl⟩ }

theorem inv_preserved : Transition.Preserves Step fun p : Protocol Reply => p.Inv := by
  rintro p ⟨step, returned⟩ q h ⟨hen, hnext⟩
  obtain rfl : (p.next step).1 = q := congrArg Prod.fst hnext
  have held {id : CallId} (hid : p.Held id) : p.resolvers id ≠ .consumed := by
    rw [hid.2]
    decide
  cases step with
  | call contract => exact h.call hen.2 contract
  | returned result => exact h.returned result
  | resolve id =>
    have hnew := h.not_pushed (held hen)
    unfold next
    dsimp only
    split_ifs with hc
    · exact h.setResolver hen.1 hnew fun hc' => by simp [hc] at hc'
    · exact h.setResolver hen.1 hnew fun _ => by decide
  | encoded id value => exact h.send hen.1 (by rw [hen.2]; decide) _
  | reject id error => exact h.send hen.1 (held hen) _
  | drop id => exact h.send hen.1 (held hen) _
  | poll run => exact h.poll hen run
  | cancel => exact h.cancel hen

theorem inv_run {ls : List (ProtocolStep Reply × Option (Outcome Unit))}
    (h : Transition.Run Step .default ls p) : p.Inv :=
  h.invariant inv_preserved inv_default

/-- What a scope promises. -/
structure Safe (p : Protocol Reply) : Prop where
  /-- No Promise is settled twice. -/
  settledOnce : (p.settled.map Prod.fst).Nodup
  /-- A handler's failure settles the Promise of its call. -/
  byHandler : ∀ id message, (id, message) ∈ p.failures → (id, .handler message) ∈ p.settled
  /-- Any other settled Promise got what its resolver queued, in the order of the queue. -/
  byAnswer : ∀ id settledBy, (id, settledBy) ∈ p.settled →
    (∃ message, (id, message) ∈ p.failures ∧ settledBy = .handler message) ∨
    ∃ settlement contract run, (id, settlement) ∈ p.pushed ∧
      settledBy = .answer settlement (PendingPromise.settle contract run settlement)
  inOrder : p.delivered.Sublist p.pushed
  /-- A resolver queues one settlement at most, and one when it is gone unless cancelled. -/
  queuedOnce : (p.pushed.map Prod.fst).Nodup
  queued : p.scope.inbox.cancelled = false → ∀ id, p.resolvers id = .consumed →
    id ∈ p.pushed.map Prod.fst
  /-- A cancelled scope holds no answer and no waiting Promise. -/
  retired : p.scope.inbox.cancelled = true →
    p.scope.inbox.ready = [] ∧ ∀ id, p.scope.pending id = none

private theorem mem_delivered {settlement : Settlement Reply} :
    (id, settlement) ∈ p.delivered ↔ ∃ result, (id, .answer settlement result) ∈ p.settled := by
  simp only [delivered, List.mem_filterMap, Prod.exists]
  constructor
  · rintro ⟨k, settledBy, hmem, heq⟩
    cases settledBy with
    | handler message => cases heq
    | answer s result =>
      cases heq
      exact ⟨result, hmem⟩
  · rintro ⟨result, hmem⟩
    exact ⟨id, _, hmem, rfl⟩

theorem Inv.safe (h : p.Inv) : p.Safe := by
  obtain ⟨taken, htaken, hsub⟩ := h.queue
  have hdelivered : p.delivered.Sublist p.pushed :=
    htaken ▸ hsub.trans (List.sublist_append_left _ _)
  refine ⟨h.settledOnce, fun id message hf => (h.failed id message).mp hf, ?_, hdelivered,
    h.pushedOnce, fun hc id => h.sent hc, h.retired⟩
  intro id settledBy hmem
  cases settledBy with
  | handler message => exact .inl ⟨message, (h.failed id message).mpr hmem, rfl⟩
  | answer settlement result =>
    obtain ⟨contract, run, rfl⟩ := h.results id settlement result hmem
    exact .inr ⟨settlement, contract, run, hdelivered.subset (mem_delivered.mpr ⟨_, hmem⟩), rfl⟩

/-- What a step returns to the host once the scope is cancelled: every `resolve` or `reject`
that ends is told so. -/
def Refused : ProtocolStep Reply × Option (Outcome Unit) → Prop
  | (.resolve _, returned) => returned = some (.err .cancelled)
  | (.reject _ _, returned) => returned = some (.err .cancelled)
  | (.encoded _ (.ok _), returned) => returned = some (.err .cancelled)
  | (.encoded _ (.err _), returned) => returned = some (.err .cancelled)
  | _ => True

private theorem send_cancelled (hc : p.scope.inbox.cancelled = true) (settlement : Settlement Reply) :
    p.send id settlement = (p, false) := by
  unfold send
  rw [ReplyInbox.push_eq_none.mpr hc]

/-- After the cancel, a step settles no Promise and queues nothing. -/
theorem Inv.step_cancelled (h : p.Inv) (hc : p.scope.inbox.cancelled = true)
    {l : ProtocolStep Reply × Option (Outcome Unit)} (hs : Step p l q) :
    q.scope.inbox.cancelled = true ∧ q.settled = p.settled ∧ q.pushed = p.pushed ∧
      Refused l := by
  obtain ⟨step, answer⟩ := l
  obtain ⟨hen, hnext⟩ := hs
  obtain ⟨rfl, rfl⟩ : (p.next step).1 = q ∧ (p.next step).2 = answer := Prod.ext_iff.mp hnext
  have hsend {id : CallId} (settlement : Settlement Reply) :
      (p.setResolver id .consumed).send id settlement = (p.setResolver id .consumed, false) := by
    have hconsumed : (p.setResolver id .consumed).scope.inbox.cancelled = true := hc
    exact send_cancelled hconsumed settlement
  cases step with
  | call contract => exact absurd (hc.symm.trans hen.2) (by decide)
  | returned result =>
    have hnone : p.handler = none := by
      cases hh : p.handler with
      | none => rfl
      | some id => exact absurd (hc.symm.trans (h.running hh).1) (by decide)
    exact absurd hnone hen
  | resolve id =>
    simp only [next, hc, if_true]
    exact ⟨hc, rfl, rfl, rfl⟩
  | encoded id value =>
    simp only [next, hsend]
    cases value <;> exact ⟨hc, rfl, rfl, by trivial⟩
  | reject id error =>
    simp only [next, hsend]
    exact ⟨hc, rfl, rfl, rfl⟩
  | drop id =>
    simp only [next, hsend]
    exact ⟨hc, rfl, rfl, trivial⟩
  | poll run =>
    have hr := (h.retired hc).1
    have hpoll : p.poll run = p := by
      unfold Protocol.poll Scope.pollOne ReplyInbox.pop
      rw [hr]
      rfl
    simp only [next, hpoll]
    exact ⟨hc, trivial, trivial, trivial⟩
  | cancel => exact ⟨rfl, rfl, rfl, trivial⟩

/-- The host reply protocol: every state is safe, and what follows a cancel changes nothing. -/
theorem host_reply_protocol {ls : List (ProtocolStep Reply × Option (Outcome Unit))}
    (h : Transition.Run Step .default ls p) :
    p.Safe ∧ (p.scope.inbox.cancelled = true → ∀ ms q, Transition.Run Step p ms q →
      q.settled = p.settled ∧ q.pushed = p.pushed ∧ q.scope.inbox.ready = [] ∧
        ∀ l ∈ ms, Refused l) := by
  have hinv := inv_run h
  refine ⟨hinv.safe, fun hc ms q hrun => ?_⟩
  have hlater : q.Inv ∧ q.scope.inbox.cancelled = true ∧ q.settled = p.settled ∧
      q.pushed = p.pushed ∧ ∀ l ∈ ms, Refused l := by
    refine hrun.history (P := fun ms q => q.Inv ∧ q.scope.inbox.cancelled = true ∧
      q.settled = p.settled ∧ q.pushed = p.pushed ∧ ∀ l ∈ ms, Refused l)
      ⟨hinv, hc, rfl, rfl, by simp⟩ ?_
    rintro ms u l v ⟨hu, huc, hus, hup, hum⟩ hstep
    obtain ⟨hvc, hvs, hvp, hvl⟩ := hu.step_cancelled huc hstep
    refine ⟨inv_preserved _ _ _ hu hstep, hvc, hvs.trans hus, hvp.trans hup, fun l' hl' => ?_⟩
    obtain hl' | rfl := (List.mem_append.mp hl').imp_right List.mem_singleton.mp
    · exact hum l' hl'
    · exact hvl
  obtain ⟨hq, hqc, hqs, hqp, hqm⟩ := hlater
  exact ⟨hqs, hqp, (hq.retired hqc).1, hqm⟩

/-- A call whose resolver answers while its handler runs. -/
def answeredCall : List (ProtocolStep Unit × Option (Outcome Unit)) :=
  [(.call "c", none), (.resolve 0, none), (.encoded 0 (.ok ()), some (.ok ()))]

theorem run_answeredCall : Transition.Run Step (.default : Protocol Unit) answeredCall
    ⟨⟨⟨false, [(0, .resolved ())]⟩, Function.update (fun _ => none) 0 (some "c"), 1⟩,
      Function.update (Function.update (fun _ => .held) 0 .encoding) 0 .consumed, some 0,
      [(0, .resolved ())], [], []⟩ :=
  .cons ⟨⟨rfl, rfl⟩, rfl⟩ <| .cons ⟨⟨by decide, rfl⟩, rfl⟩ <|
    .cons ⟨⟨by decide, rfl⟩, rfl⟩ <| .nil _

theorem host_reply_protocol_answeredCall :
    ∃ p, Transition.Run Step (.default : Protocol Unit) answeredCall p ∧
      p.pushed = [(0, .resolved ())] ∧ p.Safe :=
  ⟨_, run_answeredCall, rfl, (host_reply_protocol run_answeredCall).1⟩

/-- A handler that fails after its resolver answered: the answer is the call's first outcome,
and its Promise is rejected with the failure. -/
theorem handler_failure_overtakes_answer :
    ∃ p q, Transition.Run Step (.default : Protocol Unit) answeredCall p ∧
      p.pushed = [(0, .resolved ())] ∧ p.failures = [] ∧ p.settled = [] ∧
      Step p (.returned (.error .cancelled), none) q ∧
      q.settled = [(0, .handler VmError.cancelled.toText)] :=
  ⟨_, _, run_answeredCall, rfl, rfl, rfl, ⟨Option.some_ne_none _, rfl⟩, rfl⟩

/-- While the scope lives, the Promise of every call was settled, or waits with its answer
still queued if it has one. -/
def Kept (p : Protocol Reply) : Prop :=
  p.scope.inbox.cancelled = false → ∀ id < p.scope.nextId,
    (∃ settledBy, (id, settledBy) ∈ p.settled) ∨
      p.scope.pending id ≠ none ∧ ∀ settlement, (id, settlement) ∈ p.pushed →
        (id, settlement) ∈ p.scope.inbox.ready

/-- The step is a poll that takes the answer of a call that waits and fails to settle it. -/
def Loses (p : Protocol Reply) : ProtocolStep Reply → Prop
  | .poll run => (∃ error, run.called = .error error) ∧
    ∃ e, p.scope.inbox.ready.head? = some e ∧ p.scope.pending e.1 ≠ none
  | _ => False

theorem Kept.send (hk : p.Kept) (settlement : Settlement Reply) :
    ((p.setResolver id .consumed).send id settlement).1.Kept := by
  unfold Protocol.send
  cases hpush : (p.setResolver id .consumed).scope.inbox.push id settlement with
  | none => exact hk
  | some inbox =>
    obtain ⟨hc, rfl⟩ := ReplyInbox.push_eq_some.mp hpush
    intro _ k hlt'
    obtain hset | ⟨hpend, hq⟩ := hk hc k hlt'
    · exact .inl hset
    · refine .inr ⟨hpend, fun s hs => ?_⟩
      obtain hs | hs := List.mem_append.mp hs
      · exact List.mem_append_left _ (hq s hs)
      · exact List.mem_append_right _ hs

theorem Kept.call (hk : p.Kept) (h : p.Inv) (contract : String) : (p.call contract).Kept := by
  intro hc k hlt
  by_cases hid : k = p.scope.nextId
  · subst hid
    refine .inr ⟨by simp [Protocol.call, Scope.insert], fun s hs => ?_⟩
    have hcons := h.consumed _ hs
    rw [h.fresh (Nat.le_refl _)] at hcons
    cases hcons
  · obtain hset | ⟨hpend, hq⟩ := hk hc k (Nat.lt_of_le_of_ne (Nat.le_of_lt_succ hlt) hid)
    · exact .inl hset
    · exact .inr ⟨by simpa [Protocol.call, Scope.insert, hid] using hpend, hq⟩

theorem Kept.returned (hk : p.Kept) (h : p.Inv) (result : Except VmError Unit) :
    (p.returned result).Kept := by
  unfold Protocol.returned
  cases hh : p.handler with
  | none => exact hk
  | some id =>
    cases result with
    | ok _ => exact hk
    | error error =>
      dsimp only
      cases hp : p.scope.pending id with
      | none => exact absurd hp (h.running hh).2
      | some contract =>
        intro hc k hlt
        obtain ⟨settledBy, hset⟩ | ⟨hpend, hq⟩ := hk hc k hlt
        · exact .inl ⟨settledBy, List.mem_append_left _ hset⟩
        · by_cases hid : k = id
          · subst hid
            exact .inl ⟨_, List.mem_append_right _ (List.mem_singleton_self _)⟩
          · exact .inr ⟨by simpa [Scope.release, hid] using hpend, hq⟩

/-- An answer taken from the queue whose call waits no more was settled before. -/
theorem Kept.poll_iff (hk : p.Kept) (h : p.Inv) (run : SettleRun) :
    (p.poll run).Kept ↔ ¬ p.Loses (.poll run) := by
  unfold Protocol.poll Scope.pollOne ReplyInbox.pop Loses
  cases hr : p.scope.inbox.ready with
  | nil => simpa using hk
  | cons e rest =>
    obtain ⟨id, answer⟩ := e
    dsimp only [List.head?_cons, List.tail_cons]
    have hrest {k : CallId} {s : Settlement Reply} (hid : k ≠ id)
        (hmem : (k, s) ∈ p.scope.inbox.ready) : (k, s) ∈ rest := by
      rw [hr] at hmem
      exact (List.mem_cons.mp hmem).resolve_left fun heq => hid (congrArg Prod.fst heq)
    cases hp : p.scope.pending id with
    | none =>
      refine iff_of_true ?_ (by simp [hp])
      intro hc k hlt
      obtain hset | ⟨hpend, hq⟩ := hk hc k hlt
      · exact .inl hset
      · have hid : k ≠ id := fun heq => hpend (heq ▸ hp)
        exact .inr ⟨hpend, fun s hs => hrest hid (hq s hs)⟩
    | some contract =>
      cases hcalled : run.called with
      | ok _ =>
        refine iff_of_true ?_ (by simp)
        intro hc k hlt
        obtain ⟨settledBy, hset⟩ | ⟨hpend, hq⟩ := hk hc k hlt
        · exact .inl ⟨settledBy, List.mem_append_left _ hset⟩
        · by_cases hid : k = id
          · subst hid
            exact .inl ⟨_, List.mem_append_right _ (List.mem_singleton_self _)⟩
          · exact .inr ⟨by simpa [Scope.release, hid] using hpend,
              fun s hs => hrest hid (hq s hs)⟩
      | error error =>
        have hpend : p.scope.pending id ≠ none := by simp [hp]
        refine iff_of_false (fun hkept => ?_) (by simp [hp])
        have hlive : p.scope.inbox.cancelled = false := by
          by_contra hc
          exact hpend ((h.retired (by simpa using hc)).2 id)
        obtain ⟨settledBy, hset⟩ | ⟨hwaits, -⟩ := hkept hlive id (h.pendingBelow hpend)
        · exact hpend (h.released _ hset)
        · exact hwaits (by simp [Scope.release])

theorem Kept.step_iff (hk : p.Kept) (h : p.Inv)
    {l : ProtocolStep Reply × Option (Outcome Unit)} (hs : Step p l q) :
    q.Kept ↔ ¬ p.Loses l.1 := by
  obtain ⟨step, answer⟩ := l
  obtain ⟨hen, hnext⟩ := hs
  obtain rfl : (p.next step).1 = q := congrArg Prod.fst hnext
  cases step with
  | call contract => exact iff_of_true (hk.call h contract) id
  | returned result => exact iff_of_true (hk.returned h result) id
  | resolve k =>
    refine iff_of_true ?_ id
    unfold next
    dsimp only
    split_ifs <;> exact hk
  | encoded k value => exact iff_of_true (hk.send _) id
  | reject k error => exact iff_of_true (hk.send _) id
  | drop k => exact iff_of_true (hk.send _) id
  | poll run => exact hk.poll_iff h run
  | cancel => exact iff_of_true (fun hc => by cases hc) id

/-- No answer is lost along a run `ls` to `p` exactly when no poll of the run fails to settle
the Promise of a call that waits. -/
theorem kept_iff_no_loss (ls : List (ProtocolStep Reply × Option (Outcome Unit)))
    (p : Protocol Reply) :
    (∀ ms ns q, ls = ms ++ ns → Transition.Run Step .default ms q → Transition.Run Step q ns p →
      q.Kept) ↔
    ∀ ms l ns q r, ls = ms ++ l :: ns → Transition.Run Step .default ms q → Step q l r →
      Transition.Run Step r ns p → ¬ q.Loses l.1 :=
  Transition.Run.always_iff ls p inv_preserved inv_default (fun _ _ hlt => absurd hlt (Nat.not_lt_zero _))
    fun _ _ _ hinv hk hs => hk.step_iff hinv hs

/-- The answered call, its handler back, and a poll that an interrupt stops as it calls the
Promise function. -/
def interruptedPoll : List (ProtocolStep Unit × Option (Outcome Unit)) :=
  answeredCall ++ [(.returned (.ok ()), none), (.poll ⟨.ok (), .error .interrupted⟩, none)]

private theorem run_interruptedPoll : ∃ p, Transition.Run Step (.default : Protocol Unit) interruptedPoll p ∧
    p.scope.inbox.cancelled = false ∧ p.scope.nextId = 1 ∧ p.settled = [] ∧
    p.scope.pending 0 = none :=
  ⟨_, run_answeredCall.append <| .cons ⟨Option.some_ne_none _, rfl⟩ <| .cons ⟨rfl, rfl⟩ <| .nil _,
    rfl, rfl, rfl, rfl⟩

theorem interruptedPoll_not_kept :
    ∃ p, Transition.Run Step (.default : Protocol Unit) interruptedPoll p ∧ ¬ p.Kept := by
  obtain ⟨p, hrun, hc, hnext, hsettled, hpending⟩ := run_interruptedPoll
  refine ⟨p, hrun, fun hk => ?_⟩
  obtain ⟨settledBy, hset⟩ | ⟨hpend, -⟩ := hk hc 0 (by rw [hnext]; decide)
  · rw [hsettled] at hset
    cases hset
  · exact hpend hpending

end Protocol

end RustTS.Runner
