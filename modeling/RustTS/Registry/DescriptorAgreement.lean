import RustTS.Registry.Memory

/-! When the descriptor under a name is that of the function bound under it, in every interleaving
of registrations. -/
namespace RustTS.Registry

open RustTS.Contract Transition

variable {S H T : Type} [DecidableEq T] {unknown : S} {program : T → List (Registration S H)}

/-- Each bound function has a descriptor under its name that its own registration wrote. -/
def State.Agrees (s : State S H T) : Prop :=
  ∀ name number binding, s.bindings name = some (number, binding) →
    ∃ descriptor, s.byName name = some (number, descriptor) ∧
      descriptor.name = binding.name ∧ descriptor.function = some binding.signature

/-- Each installed function is validated, if anything is, against its own handler's schemas. -/
def State.CallsValidated (validation : Validation S) (s : State S H T) : Prop :=
  ∀ name number binding, (name, number, binding) ∈ s.installed →
    validation.validatorFor s name =
      if validation.validatesAny then some (validation.ownContract binding) else none

/-- Nothing is registered under the name of a function after it, or on another thread. -/
def FunctionsLast (program : T → List (Registration S H)) : Prop :=
  ∀ thread before registration after, program thread = before ++ registration :: after →
    registration.binding ≠ none →
      (∀ other ∈ after, other.name ≠ registration.name) ∧
        ∀ thread', thread' ≠ thread → ∀ other ∈ program thread', other.name ≠ registration.name

omit [DecidableEq T] in
private theorem withDescriptor_eq {s : State S H T} {name : Str} {number : Nat}
    {descriptor : HostContractDescriptor S} (h : s.byName name = some (number, descriptor))
    (check : HostContractDescriptor S → Except VmError Unit) :
    Validation.withDescriptor s name check = check descriptor := by
  unfold Validation.withDescriptor
  rw [h]

omit [DecidableEq T] in
private theorem registeredContract_eq (validation : Validation S) {s : State S H T} {name : Str}
    {number : Nat} {descriptor : HostContractDescriptor S} {binding : FunctionBinding S H}
    (h : s.byName name = some (number, descriptor)) (hname : descriptor.name = binding.name)
    (hfunction : descriptor.function = some binding.signature) :
    validation.registeredContract s name = validation.ownContract binding := by
  unfold Validation.registeredContract Validation.ownContract
  simp only [withDescriptor_eq h, Validation.validateFunctionInput,
    Validation.validateFunctionOutput, hfunction, hname]

/-- A function is bound under the name, or about to be. -/
def State.Claimed (s : State S H T) (name : Str) : Prop :=
  (∃ bound, s.bindings name = some bound) ∨
    ∃ thread number binding, (s.threads thread).binding = some (number, binding) ∧
      binding.name = name

/-- Every name a function has is its registration's alone. -/
structure Settled (unknown : S) (program : T → List (Registration S H)) (s : State S H T) :
    Prop where
  rest : ∀ thread, ∃ done, program thread = done ++ (s.threads thread).todo
  free : ∀ name, s.Claimed name → ∀ thread, ∀ registration ∈ (s.threads thread).todo,
    registration.name ≠ name
  bound : ∀ name number binding, s.bindings name = some (number, binding) →
    ∃ registration : Registration S H,
    s.byName name = some (number, registration.descriptor unknown) ∧
      registration.binding = some binding
  held : ∀ thread number binding, (s.threads thread).binding = some (number, binding) →
    (∃ registration : Registration S H,
      s.byName binding.name = some (number, registration.descriptor unknown) ∧
      registration.binding = some binding) ∧ s.bindings binding.name = none
  single : ∀ thread number binding, (s.threads thread).binding = some (number, binding) →
    ∀ thread' number' binding', (s.threads thread').binding = some (number', binding') →
      binding'.name = binding.name → thread' = thread
  installed : ∀ name number binding, (name, number, binding) ∈ s.installed →
    s.bindings name = some (number, binding)

omit [DecidableEq T] in
private theorem settled_start : Settled unknown program (State.start program) where
  rest := fun thread => ⟨[], rfl⟩
  free := by
    rintro name (⟨bound, h⟩ | ⟨thread, number, binding, h, _⟩)
    · cases h
    · cases h
  bound := fun _ _ _ h => by cases h
  held := fun _ _ _ h => by cases h
  single := fun _ _ _ h => by cases h
  installed := fun _ _ _ h => by cases h

omit [DecidableEq T] in
theorem Settled.agrees {s : State S H T} (h : Settled unknown program s) : s.Agrees := by
  intro name number binding hbound
  obtain ⟨registration, hname, hbinding⟩ := h.bound name number binding hbound
  refine ⟨_, hname, ?_, registration.function_descriptor unknown hbinding⟩
  rw [Registration.name_descriptor, Registration.name_binding hbinding]

omit [DecidableEq T] in
private theorem Settled.callsValidated {s : State S H T} (h : Settled unknown program s)
    (validation : Validation S) : s.CallsValidated validation := by
  intro name number binding hinstalled
  obtain ⟨descriptor, hname, hdescriptor, hfunction⟩ :=
    h.agrees name number binding (h.installed name number binding hinstalled)
  unfold Validation.validatorFor
  rw [registeredContract_eq validation hname hdescriptor hfunction]

/-- The first update of a registration. -/
theorem Settled.insertDescriptor (hlast : FunctionsLast program) {s : State S H T}
    (h : Settled unknown program s) {thread : T} {registration : Registration S H}
    {todo : List (Registration S H)}
    (hthread : s.threads thread = ⟨registration :: todo, none⟩) :
    Settled unknown program (s.insertDescriptor unknown thread registration todo) := by
  have hnew : ¬s.Claimed registration.name := fun hclaimed =>
    h.free _ hclaimed thread registration (by simp [hthread]) rfl
  have hunbound : s.bindings registration.name = none := by
    cases hbound : s.bindings registration.name with
    | none => rfl
    | some bound => exact absurd (.inl ⟨bound, hbound⟩) hnew
  obtain ⟨done, hdone⟩ := h.rest thread
  rw [hthread] at hdone
  -- What the thread now holds is this registration's function.
  have hholds {number : Nat} {binding : FunctionBinding S H}
      (hmap : registration.binding.map (fun binding => (s.registrations, binding)) =
        some (number, binding)) :
      number = s.registrations ∧ registration.binding = some binding := by
    obtain ⟨binding', hbinding, hpair⟩ := Option.map_eq_some_iff.mp hmap
    obtain ⟨rfl, rfl⟩ := Prod.mk.inj hpair
    exact ⟨rfl, hbinding⟩
  have hother {thread' : T} (hne : thread' ≠ thread) {number : Nat} {binding : FunctionBinding S H}
      (hheld : (s.threads thread').binding = some (number, binding)) :
      binding.name ≠ registration.name := fun heq =>
    hnew (.inr ⟨thread', number, binding, hheld, heq⟩)
  refine ⟨fun thread' => ?_, ?_, ?_, ?_, ?_, h.installed⟩
  · dsimp only [State.insertDescriptor]
    by_cases heq : thread' = thread
    · subst heq
      exact ⟨done ++ [registration], by simpa using hdone⟩
    · simpa only [Function.update_of_ne heq] using h.rest thread'
  · intro name hclaimed thread' other hmem
    dsimp only [State.insertDescriptor, State.insertBinding] at hmem
    have hmem' : other ∈ (s.threads thread').todo := by
      by_cases heq : thread' = thread
      · subst heq
        rw [Function.update_self] at hmem
        rw [hthread]
        exact List.mem_cons_of_mem _ hmem
      · rwa [Function.update_of_ne heq] at hmem
    rcases hclaimed with hbound | ⟨holder, number, binding, hheld, rfl⟩
    · exact h.free name (.inl hbound) thread' other hmem'
    · dsimp only [State.insertDescriptor, State.insertBinding] at hheld
      by_cases hholder : holder = thread
      · subst hholder
        rw [Function.update_self] at hheld
        obtain ⟨_, hbinding⟩ := hholds hheld
        rw [Registration.name_binding hbinding]
        have hfunction : registration.binding ≠ none := by simp [hbinding]
        obtain ⟨hafter, hothers⟩ := hlast holder done registration todo hdone hfunction
        by_cases heq : thread' = holder
        · subst heq
          rw [Function.update_self] at hmem
          exact hafter other hmem
        · obtain ⟨done', hdone'⟩ := h.rest thread'
          exact hothers thread' heq other (hdone' ▸ List.mem_append_right _ hmem')
      · rw [Function.update_of_ne hholder] at hheld
        exact h.free _ (.inr ⟨holder, number, binding, hheld, rfl⟩) thread' other hmem'
  · intro name number binding hbound
    have hne : name ≠ registration.name := by
      intro heq
      dsimp only [State.insertDescriptor] at hbound
      rw [heq, hunbound] at hbound
      cases hbound
    obtain ⟨registration', hname, hbinding⟩ := h.bound name number binding hbound
    exact ⟨registration', (Function.update_of_ne hne _ _).trans hname, hbinding⟩
  · intro holder number binding hheld
    dsimp only [State.insertDescriptor, State.insertBinding] at hheld
    by_cases hholder : holder = thread
    · subst hholder
      rw [Function.update_self] at hheld
      obtain ⟨rfl, hbinding⟩ := hholds hheld
      have hname := Registration.name_binding hbinding
      refine ⟨⟨registration, ?_, hbinding⟩, ?_⟩
      · rw [hname]
        exact Function.update_self _ _ _
      · rw [hname]
        exact hunbound
    · rw [Function.update_of_ne hholder] at hheld
      obtain ⟨⟨registration', hname, hbinding⟩, hunbound'⟩ := h.held holder number binding hheld
      exact ⟨⟨registration', (Function.update_of_ne (hother hholder hheld) _ _).trans hname,
        hbinding⟩, hunbound'⟩
  · intro holder number binding hheld holder' number' binding' hheld' heq
    dsimp only [State.insertDescriptor, State.insertBinding] at hheld hheld'
    by_cases hholder : holder = thread
    · subst hholder
      by_cases hholder' : holder' = holder
      · exact hholder'
      · rw [Function.update_self] at hheld
        rw [Function.update_of_ne hholder'] at hheld'
        rw [Registration.name_binding (hholds hheld).2] at heq
        exact absurd heq (hother hholder' hheld')
    · rw [Function.update_of_ne hholder] at hheld
      by_cases hholder' : holder' = thread
      · subst hholder'
        rw [Function.update_self] at hheld'
        rw [Registration.name_binding (hholds hheld').2] at heq
        exact absurd heq.symm (hother hholder hheld)
      · rw [Function.update_of_ne hholder'] at hheld'
        exact h.single holder number binding hheld holder' number' binding' hheld' heq

/-- The second update of a registration. -/
theorem Settled.insertBinding {s : State S H T} (h : Settled unknown program s) {thread : T}
    {todo : List (Registration S H)} {number : Nat} {binding : FunctionBinding S H}
    (hthread : s.threads thread = ⟨todo, some (number, binding)⟩) :
    Settled unknown program (s.insertBinding thread todo number binding) := by
  have hheld : (s.threads thread).binding = some (number, binding) := by rw [hthread]
  obtain ⟨hwritten, hunbound⟩ := h.held thread number binding hheld
  have htodo (thread' : T) :
      (Function.update s.threads thread ⟨todo, none⟩ thread').todo = (s.threads thread').todo := by
    by_cases heq : thread' = thread
    · rw [heq, Function.update_self, hthread]
    · rw [Function.update_of_ne heq]
  have hholder {thread' : T} {number' : Nat} {binding' : FunctionBinding S H}
      (hheld' : (Function.update s.threads thread ⟨todo, none⟩ thread').binding =
        some (number', binding')) :
      thread' ≠ thread ∧ (s.threads thread').binding = some (number', binding') := by
    by_cases heq : thread' = thread
    · rw [heq, Function.update_self] at hheld'
      cases hheld'
    · rw [Function.update_of_ne heq] at hheld'
      exact ⟨heq, hheld'⟩
  refine ⟨fun thread' => ?_, ?_, ?_, ?_, ?_, ?_⟩
  · dsimp only [State.insertBinding]
    rw [htodo]
    exact h.rest thread'
  · intro name hclaimed thread' other hmem
    dsimp only [State.insertDescriptor, State.insertBinding] at hmem
    rw [htodo] at hmem
    refine h.free name ?_ thread' other hmem
    rcases hclaimed with ⟨bound, hbound⟩ | ⟨holder, number', binding', hheld', hname⟩
    · by_cases heq : name = binding.name
      · exact .inr ⟨thread, number, binding, hheld, heq.symm⟩
      · exact .inl ⟨bound, (Function.update_of_ne heq _ _).symm.trans hbound⟩
    · exact .inr ⟨holder, number', binding', (hholder hheld').2, hname⟩
  · intro name number' binding' hbound
    dsimp only [State.insertDescriptor, State.insertBinding] at hbound
    by_cases heq : name = binding.name
    · subst heq
      rw [Function.update_self] at hbound
      obtain ⟨rfl, rfl⟩ := Prod.mk.inj (Option.some.inj hbound)
      exact hwritten
    · rw [Function.update_of_ne heq] at hbound
      exact h.bound name number' binding' hbound
  · intro holder number' binding' hheld'
    obtain ⟨hne, hheld'⟩ := hholder hheld'
    obtain ⟨hwritten', hunbound'⟩ := h.held holder number' binding' hheld'
    have hname : binding'.name ≠ binding.name := fun heq =>
      hne (h.single thread number binding hheld holder number' binding' hheld' heq)
    exact ⟨hwritten', (Function.update_of_ne hname _ _).trans hunbound'⟩
  · intro holder number' binding' hheld' holder' number'' binding'' hheld''
    exact h.single holder number' binding' (hholder hheld').2 holder' number'' binding''
      (hholder hheld'').2
  · intro name number' binding' hinstalled
    have hbound := h.installed name number' binding' hinstalled
    have hne : name ≠ binding.name := by
      intro heq
      rw [heq, hunbound] at hbound
      cases hbound
    exact (Function.update_of_ne hne _ _).trans hbound

theorem settled_preserved (hlast : FunctionsLast program) :
    Preserves (Step (T := T) unknown) (Settled unknown program) := by
  intro s event s' h hstep
  cases hstep with
  | insertDescriptor hthread => exact h.insertDescriptor hlast hthread
  | insertBinding hthread => exact h.insertBinding hthread
  | installNative =>
    refine ⟨h.rest, h.free, h.bound, h.held, h.single, ?_⟩
    intro name number binding hinstalled
    rcases List.mem_append.mp hinstalled with hold | hnew
    · exact h.installed name number binding hold
    · obtain ⟨name', _, hmap⟩ := List.mem_filterMap.mp hnew
      obtain ⟨bound, hbound, hpair⟩ := Option.map_eq_some_iff.mp hmap
      obtain ⟨rfl, rfl⟩ := Prod.mk.inj hpair
      exact hbound

/-- The numbers of the bindings are those of registrations begun. -/
def State.Numbered (s : State S H T) : Prop :=
  (∀ name number binding, s.bindings name = some (number, binding) → number < s.registrations) ∧
    ∀ thread number binding, (s.threads thread).binding = some (number, binding) →
      number < s.registrations

theorem numbered_preserved : Preserves (Step (T := T) (S := S) (H := H) unknown) State.Numbered := by
  intro s event s' ⟨hbound, hheld⟩ hstep
  cases hstep with
  | @insertDescriptor thread registration rest hthread =>
    constructor
    · intro name number binding h
      exact Nat.lt_succ_of_lt (hbound name number binding h)
    · intro holder number binding h
      by_cases heq : holder = thread
      · subst heq
        dsimp only [State.insertDescriptor] at h
        rw [Function.update_self] at h
        obtain ⟨_, _, hpair⟩ := Option.map_eq_some_iff.mp h
        rw [← (Prod.mk.inj hpair).1]
        exact Nat.lt_succ_self _
      · dsimp only [State.insertDescriptor] at h
        rw [Function.update_of_ne heq] at h
        exact Nat.lt_succ_of_lt (hheld holder number binding h)
  | @insertBinding thread todo number binding hthread =>
    constructor
    · intro name number' binding' h
      by_cases heq : name = binding.name
      · subst heq
        dsimp only [State.insertBinding] at h
        rw [Function.update_self] at h
        obtain ⟨rfl, rfl⟩ := Prod.mk.inj (Option.some.inj h)
        exact hheld thread number binding (by rw [hthread])
      · dsimp only [State.insertBinding] at h
        rw [Function.update_of_ne heq] at h
        exact hbound name number' binding' h
    · intro holder number' binding' h
      by_cases heq : holder = thread
      · subst heq
        dsimp only [State.insertBinding] at h
        rw [Function.update_self] at h
        cases h
      · dsimp only [State.insertBinding] at h
        rw [Function.update_of_ne heq] at h
        exact hheld holder number' binding' h
  | installNative => exact ⟨hbound, hheld⟩

/-- A thread alone performs its first registrations; what was bound stays bound. -/
theorem run_todo (thread : T) {before after : List (Registration S H)} {s : State S H T}
    (hthread : s.threads thread = ⟨before ++ after, none⟩) :
    ∃ events s', Run (Step unknown) s events s' ∧ s'.threads thread = ⟨after, none⟩ ∧
      (∀ thread', thread' ≠ thread → s'.threads thread' = s.threads thread') ∧
      (∀ name, s.bindings name ≠ none → s'.bindings name ≠ none) ∧
      ∀ registration ∈ before, registration.binding ≠ none →
        s'.bindings registration.name ≠ none := by
  induction before generalizing s with
  | nil => exact ⟨[], s, .nil s, hthread, fun _ _ => rfl, fun _ => id, by simp⟩
  | cons registration before ih =>
    let first := s.insertDescriptor unknown thread registration (before ++ after)
    have hfirst : Step unknown s (.insertDescriptor thread) first := .insertDescriptor hthread
    have hheld : first.threads thread = ⟨before ++ after,
        registration.binding.map fun binding => (s.registrations, binding)⟩ :=
      Function.update_self _ _ _
    have hidle (thread' : T) (hne : thread' ≠ thread) :
        first.threads thread' = s.threads thread' := Function.update_of_ne hne _ _
    cases hbinding : registration.binding with
    | none =>
      rw [hbinding] at hheld
      obtain ⟨events, s', hrun, hafter, hothers, hbound, hdone⟩ := ih hheld
      refine ⟨_, s', .cons hfirst hrun, hafter, fun thread' hne => ?_, hbound, ?_⟩
      · exact (hothers thread' hne).trans (hidle thread' hne)
      · intro other hother hfunction
        rcases List.mem_cons.mp hother with rfl | hother
        · exact absurd hbinding hfunction
        · exact hdone other hother hfunction
    | some binding =>
      rw [hbinding] at hheld
      let second := first.insertBinding thread (before ++ after) s.registrations binding
      have hsecond : Step unknown first (.insertBinding thread) second := .insertBinding hheld
      have hnext : second.threads thread = ⟨before ++ after, none⟩ := Function.update_self _ _ _
      obtain ⟨events, s', hrun, hafter, hothers, hbound, hdone⟩ := ih hnext
      have hbinds : second.bindings binding.name = some (s.registrations, binding) :=
        Function.update_self _ _ _
      refine ⟨_, s', .cons hfirst (.cons hsecond hrun), hafter, fun thread' hne => ?_,
        fun name hname => hbound name ?_, ?_⟩
      · have hstill : second.threads thread' = first.threads thread' :=
          Function.update_of_ne hne _ _
        exact (hothers thread' hne).trans (hstill.trans (hidle thread' hne))
      · by_cases heq : name = binding.name
        · rw [heq, hbinds]
          simp
        · have hstill : second.bindings name = s.bindings name := Function.update_of_ne heq _ _
          rw [hstill]
          exact hname
      · intro other hother hfunction
        rcases List.mem_cons.mp hother with rfl | hother
        · rw [← Registration.name_binding hbinding]
          refine hbound _ ?_
          rw [hbinds]
          simp
        · exact hdone other hother hfunction

theorem not_agrees_of_bound {s : State S H T} (hnumbered : s.Numbered) {thread : T}
    {registration : Registration S H} {rest : List (Registration S H)}
    (hbound : s.bindings registration.name ≠ none) :
    ¬(s.insertDescriptor unknown thread registration rest).Agrees := by
  intro hagrees
  cases hbinding : s.bindings registration.name with
  | none => exact hbound hbinding
  | some bound =>
    obtain ⟨descriptor, hname, _⟩ := hagrees registration.name bound.1 bound.2 hbinding
    have hnew : (s.insertDescriptor unknown thread registration rest).byName registration.name =
        some (s.registrations, registration.descriptor unknown) := Function.update_self _ _ _
    have hnumber := (Prod.mk.inj (Option.some.inj (hnew.symm.trans hname))).1
    have hless := hnumbered.1 registration.name bound.1 bound.2 hbinding
    omega

omit [DecidableEq T] in
private theorem numbered_start : (State.start program).Numbered :=
  ⟨fun _ _ _ h => (by cases h), fun _ _ _ h => by cases h⟩

/-- After any interleaving of registrations on any threads every function's descriptor is its own,
and every call is validated against its own handler's schemas, where nothing is registered under
the name of a function after that function, or on another thread; elsewhere some interleaving has
another descriptor under a function's name. -/
theorem agrees_iff_functionsLast (validation : Validation S) (unknown : S)
    (program : T → List (Registration S H)) :
    (∀ s, Reachable unknown program s → s.Agrees ∧ s.CallsValidated validation) ↔
      FunctionsLast program := by
  constructor
  · intro hall thread before registration after hprogram hfunction
    have hstart : (State.start program).threads thread =
        ⟨(before ++ [registration]) ++ after, none⟩ := by
      show (⟨program thread, none⟩ : Thread S H) = _
      rw [hprogram, List.append_assoc]
      rfl
    have hclash {s : State S H T} {events : List (Event T)} {thread' : T}
        {other : Registration S H} {rest : List (Registration S H)}
        (hrun : Run (Step unknown) (State.start program) events s)
        (hthread : s.threads thread' = ⟨other :: rest, none⟩)
        (hbound : s.bindings other.name ≠ none) : False := by
      have hstep : Step unknown s (.insertDescriptor thread')
          (s.insertDescriptor unknown thread' other rest) := .insertDescriptor hthread
      have hnumbered := hrun.invariant numbered_preserved numbered_start
      exact not_agrees_of_bound hnumbered hbound (hall _ ⟨_, hrun.snoc hstep⟩).1
    constructor
    · -- The other registration comes later on the same thread.
      intro other hother hname
      obtain ⟨between, rest, rfl⟩ := List.append_of_mem hother
      rw [← List.append_assoc] at hstart
      obtain ⟨events, s, hrun, hthread, _, _, hdone⟩ := run_todo  thread hstart
      refine hclash hrun hthread ?_
      rw [hname]
      exact hdone registration (by simp) hfunction
    · -- The other registration is on another thread, which waits until the function is bound.
      intro thread' hne other hother hname
      obtain ⟨between, rest, hprogram'⟩ := List.append_of_mem hother
      obtain ⟨events, s, hrun, _, hothers, _, hdone⟩ := run_todo  thread hstart
      have hthread' : s.threads thread' = ⟨between ++ other :: rest, none⟩ := by
        rw [hothers thread' hne, ← hprogram']
        rfl
      obtain ⟨events', s', hrun', hnext, _, hbound, _⟩ := run_todo  thread' hthread'
      refine hclash (hrun.append hrun') hnext (hbound other.name ?_)
      rw [hname]
      exact hdone registration (by simp) hfunction
  · intro hlast s ⟨events, hrun⟩
    have hsettled := hrun.invariant (settled_preserved hlast) settled_start
    exact ⟨hsettled.agrees, hsettled.callsValidated validation⟩

def pingContract (kind : HostContractKind) : HostContract where
  name := "ping".toList
  kind := kind
  metadata := ⟨"ping".toList, []⟩
  importModule := "app".toList
  exportPath := ["ping".toList]

/-- A function whose input must be `null`, then a callback of the same name. Schemas say whether a
value must be `null`. -/
def pingProgram (_ : Unit) : List (Registration Bool Unit) :=
  [.function (pingContract .function) true false (), .callback (pingContract .callback) false]

def nullValidation : Validation Bool where
  contract := .inputs
  rejectsUnknownFields := false
  validateSchema schema value _ :=
    match schema, value with
    | true, .null | false, _ => .ok ()
    | true, _ => .error "$: expected null"

/-- The installed function then takes any input, though inputs are validated. -/
theorem callback_hides_function :
    ∃ s : State Bool Unit Unit, Reachable false pingProgram s ∧ ¬s.Agrees ∧
      ¬s.CallsValidated nullValidation := by
  let ping : Registration Bool Unit := .function (pingContract .function) true false ()
  let pinged : Registration Bool Unit := .callback (pingContract .callback) false
  let bound : FunctionBinding Bool Unit := ⟨"ping".toList, ⟨true, false, false⟩, ()⟩
  let s₁ := (State.start pingProgram).insertDescriptor false () ping [pinged]
  let s₂ := s₁.insertBinding () [pinged] 0 bound
  let s₃ := s₂.installNative ["ping".toList]
  let s₄ := s₃.insertDescriptor false () pinged []
  refine ⟨s₄, ⟨_, .cons (.insertDescriptor rfl) (.cons (.insertBinding rfl)
    (.cons .installNative (.cons (.insertDescriptor rfl) (.nil s₄))))⟩, ?_, ?_⟩
  · intro hagrees
    obtain ⟨descriptor, hname, _, hfunction⟩ := hagrees "ping".toList 0 bound rfl
    obtain rfl := (Prod.mk.inj (Option.some.inj hname)).2
    cases hfunction
  · intro hvalidated
    have h := hvalidated "ping".toList 0 bound (List.mem_singleton.mpr rfl)
    have hinput := congrFun (congrArg ContractValidator.validateInput (Option.some.inj h))
      (.bool true)
    cases hinput

end RustTS.Registry
