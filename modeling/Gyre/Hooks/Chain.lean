/- digest: The order hooks are registered in, what a chain of them does to an event, and what is reported. -/

import Mathlib.Order.OrderDual
import Gyre.Hooks.Registry
import Gyre.Lib.Ranking
import Gyre.Tools.Tool

set_option autoImplicit false
set_option relaxedAutoImplicit false

namespace Gyre.Hooks

open Gyre.Llm Gyre.Lib Gyre.Tools

/-- A registered hook with its priority. -/
structure HookEntry where
  hook : Hook
  priority : Nat

section Registering

/-- `sort_by_key` -/
def sortByPriority (hooks : List HookEntry) : List HookEntry :=
  hooks.mergeSort fun a b => decide (a.priority ≤ b.priority)

def registerWithPriority (hooks : List HookEntry) (hook : Hook) (priority : Nat) : List HookEntry :=
  sortByPriority (hooks ++ [⟨hook, priority⟩])

/-- The hooks that are left, and whether one was removed. -/
def unregister (hooks : List HookEntry) (name : String) : List HookEntry × Bool :=
  let left := hooks.filter fun e => e.hook.name != name
  (left, decide (left.length < hooks.length))

inductive RegistryCall where
  | register (hook : Hook) (priority : Nat)
  | unregister (name : String)

def RegistryCall.apply (hooks : List HookEntry) : RegistryCall → List HookEntry
  | .register hook priority => registerWithPriority hooks hook priority
  | .unregister name => (Hooks.unregister hooks name).1

/-- The registry after some calls. -/
def registryAfter (calls : List RegistryCall) : List HookEntry := calls.foldl RegistryCall.apply []

end Registering

section Meaning

/-- What is registered after one more call, in the order of registration. -/
def RegistryCall.registers (live : List HookEntry) : RegistryCall → List HookEntry
  | .register hook priority => live ++ [⟨hook, priority⟩]
  | .unregister name => live.filter fun e => e.hook.name != name

/-- What is registered after some calls, in the order of registration. -/
def registered (calls : List RegistryCall) : List HookEntry := calls.foldl RegistryCall.registers []

/-- The entries in order of priority, those of one priority in the order of registration. -/
structure InOrder (live entries : List HookEntry) : Prop where
  perm : entries.Perm live
  ordered : entries.Pairwise fun a b => a.priority ≤ b.priority
  stable : ∀ p, (entries.filter fun e => decide (e.priority = p)) = live.filter fun e => decide (e.priority = p)

/-- What a chain does: the events that its hooks are given, up to the one that stops it, and how it
ends. -/
inductive Executes (serde : Serde) : List Hook → HookEvent → List HookEvent →
    Except HookError HookEvent → Prop
  | finished (event : HookEvent) : Executes serde [] event [] (.ok event)
  | rejects {hook : Hook} {rest : List Hook} {event : HookEvent} {reason : String} :
      hook.execute event = .finished (.reject reason) →
      Executes serde (hook :: rest) event [event] (.error (.rejected reason))
  | modifies {hook : Hook} {rest : List Hook} {event : HookEvent} {value : String}
      {seen : List HookEvent} {result : Except HookError HookEvent} :
      hook.execute event = .finished (.proceed (some value)) →
      Executes serde rest (event.applyModification serde value) seen result →
      Executes serde (hook :: rest) event (event :: seen) result
  | passes {hook : Hook} {rest : List Hook} {event : HookEvent} {seen : List HookEvent}
      {result : Except HookError HookEvent} :
      hook.execute event = .finished (.proceed none) → Executes serde rest event seen result →
      Executes serde (hook :: rest) event (event :: seen) result
  | ignored {hook : Hook} {rest : List Hook} {event : HookEvent} {seen : List HookEvent}
      {result : Except HookError HookEvent} :
      (∃ err, hook.execute event = .failed err) ∨ hook.execute event = .timedOut →
      hook.failureMode = .failOpen → Executes serde rest event seen result →
      Executes serde (hook :: rest) event (event :: seen) result
  | fails {hook : Hook} {rest : List Hook} {event : HookEvent} {err : HookError} :
      hook.execute event = .failed err → hook.failureMode = .failClosed →
      Executes serde (hook :: rest) event [event]
        (.error (.executionFailed s!"Hook '{hook.name}' failed: {err.display}"))
  | timesOut {hook : Hook} {rest : List Hook} {event : HookEvent} :
      hook.execute event = .timedOut → hook.failureMode = .failClosed →
      Executes serde (hook :: rest) event [event] (.error (.timeout hook.timeout))

/-- Parameters are what is read from the text they are printed as. -/
def ReadsBack (serde : Serde) : HookEvent → Prop
  | .toolCall _ parameters _ _ => serde.fromStr (serde.toStr parameters) = some parameters
  | _ => True

/-- The parameters that a tool call goes on with are those of an event. -/
def GoesOnWith (serde : Serde) (outcome : HookOutcome) : HookEvent → HookEvent → Prop
  | .toolCall _ parameters _ _, .toolCall _ final _ _ => hookedParameters serde parameters outcome = final
  | _, _ => True

/-- What is reported of a chain: its error; or a modification exactly if the primary content differs in
the end. Applied to the original event it gives the final one, and a tool is called with the final
parameters, exactly if these read back. -/
inductive Reported (serde : Serde) (event : HookEvent) :
    Except HookError HookEvent → Except HookError HookOutcome → Prop
  | stopped (err : HookError) : Reported serde event (.error err) (.error err)
  | same (final : HookEvent) : final.extractContent serde = event.extractContent serde →
      Reported serde event (.ok final) (.ok (.proceed none))
  | modified (final : HookEvent) (value : String) : value = final.extractContent serde →
      value ≠ event.extractContent serde →
      (event.applyModification serde value = final ↔ ReadsBack serde final) →
      (ReadsBack serde final → GoesOnWith serde (.proceed (some value)) event final) →
      Reported serde event (.ok final) (.ok (.proceed (some value)))

end Meaning

section Order

variable {live entries : List HookEntry}

/-- Sorting by priority is ranking by it, the lowest first. -/
theorem sortByPriority_eq (hooks : List HookEntry) :
    sortByPriority hooks = rankBy (fun e => OrderDual.toDual e.priority) hooks := rfl

theorem sortByPriority_filter (hooks : List HookEntry) (p : Nat) :
    ((sortByPriority hooks).filter fun e => decide (e.priority = p)) =
      hooks.filter fun e => decide (e.priority = p) := by
  rw [sortByPriority_eq]
  exact filter_rankBy hooks (OrderDual.toDual p)

theorem InOrder.register (h : InOrder live entries) (hook : Hook) (priority : Nat) :
    InOrder (live ++ [⟨hook, priority⟩]) (registerWithPriority entries hook priority) where
  perm := by
    unfold registerWithPriority
    rw [sortByPriority_eq]
    exact (rankBy_perm _).trans (h.perm.append_right _)
  ordered := by
    unfold registerWithPriority
    rw [sortByPriority_eq]
    exact rankBy_ordered (fun e : HookEntry => OrderDual.toDual e.priority) _
  stable p := by
    unfold registerWithPriority
    rw [sortByPriority_filter, List.filter_append, List.filter_append, h.stable]

theorem InOrder.filter (h : InOrder live entries) (keep : HookEntry → Bool) :
    InOrder (live.filter keep) (entries.filter keep) where
  perm := h.perm.filter keep
  ordered := h.ordered.filter keep
  stable p := by
    rw [List.filter_filter, List.filter_filter]
    have hcomm : ∀ l : List HookEntry, (l.filter fun e => decide (e.priority = p) && keep e) =
        (l.filter fun e => decide (e.priority = p)).filter keep := by
      intro l
      rw [List.filter_filter]
      exact List.filter_congr fun e _ => Bool.and_comm _ _
    rw [hcomm, hcomm, h.stable]

theorem InOrder.step (h : InOrder live entries) (call : RegistryCall) :
    InOrder (call.registers live) (call.apply entries) := by
  cases call with
  | register hook priority => exact h.register hook priority
  | unregister name => exact h.filter _

theorem registryAfter_inOrder (calls : List RegistryCall) :
    InOrder (registered calls) (registryAfter calls) := by
  have hrun : ∀ (calls : List RegistryCall) (live entries : List HookEntry), InOrder live entries →
      InOrder (calls.foldl RegistryCall.registers live) (calls.foldl RegistryCall.apply entries) := by
    intro calls
    induction calls with
    | nil => exact fun _ _ h => h
    | cons call calls ih => exact fun live entries h => ih _ _ (h.step call)
  exact hrun calls [] [] ⟨List.Perm.refl _, List.Pairwise.nil, fun _ => rfl⟩

end Order

section Execution

variable {serde : Serde}

variable (serde) in
/-- The chain does what it should. -/
theorem runChain_executes (hooks : List Hook) (event : HookEvent) :
    ∃ seen, Executes serde hooks event seen (runChain serde hooks event) := by
  induction hooks generalizing event with
  | nil => exact ⟨[], .finished event⟩
  | cons hook rest ih =>
    rw [runChain]
    cases hrun : hook.execute event with
    | finished outcome =>
      cases outcome with
      | reject reason => exact ⟨[event], .rejects hrun⟩
      | proceed modified =>
        cases modified with
        | some value =>
          obtain ⟨seen, hseen⟩ := ih (event.applyModification serde value)
          exact ⟨event :: seen, .modifies hrun hseen⟩
        | none =>
          obtain ⟨seen, hseen⟩ := ih event
          exact ⟨event :: seen, .passes hrun hseen⟩
    | failed err =>
      cases hmode : hook.failureMode with
      | failOpen =>
        obtain ⟨seen, hseen⟩ := ih event
        exact ⟨event :: seen, .ignored (Or.inl ⟨err, hrun⟩) hmode hseen⟩
      | failClosed => exact ⟨[event], .fails hrun hmode⟩
    | timedOut =>
      cases hmode : hook.failureMode with
      | failOpen =>
        obtain ⟨seen, hseen⟩ := ih event
        exact ⟨event :: seen, .ignored (Or.inr hrun) hmode hseen⟩
      | failClosed => exact ⟨[event], .timesOut hrun hmode⟩

/-- Events that differ in their primary content at most. -/
inductive Alike : HookEvent → HookEvent → Prop
  | same (event : HookEvent) : Alike event event
  | inbound (user channel x y : String) (thread : Option String) :
      Alike (.inbound user channel x thread) (.inbound user channel y thread)
  | toolCall (tool : String) (p q : Json) (user context : String) :
      Alike (.toolCall tool p user context) (.toolCall tool q user context)
  | outbound (user channel x y : String) (thread : Option String) :
      Alike (.outbound user channel x thread) (.outbound user channel y thread)
  | responseTransform (user thread x y : String) :
      Alike (.responseTransform user thread x) (.responseTransform user thread y)

theorem Alike.apply {event other : HookEvent} (h : Alike event other) (value : String) :
    Alike event (other.applyModification serde value) := by
  cases h with
  | same =>
    cases event with
    | inbound user channel x thread => exact .inbound user channel x value thread
    | toolCall tool p user context => exact .toolCall tool p _ user context
    | outbound user channel x thread => exact .outbound user channel x value thread
    | responseTransform user thread x => exact .responseTransform user thread x value
    | sessionStart user session => exact .same _
    | sessionEnd user session threads => exact .same _
  | inbound user channel x y thread => exact .inbound user channel x value thread
  | toolCall tool p q user context => exact .toolCall tool p _ user context
  | outbound user channel x y thread => exact .outbound user channel x value thread
  | responseTransform user thread x y => exact .responseTransform user thread x value

/-- A chain changes nothing but the primary content. -/
theorem Executes.alike {hooks : List Hook} {event start final : HookEvent} {seen : List HookEvent}
    {result : Except HookError HookEvent} (h : Executes serde hooks event seen result)
    (hresult : result = .ok final) (hstart : Alike start event) : Alike start final := by
  induction h with
  | finished event =>
    cases hresult
    exact hstart
  | rejects => cases hresult
  | modifies hrun hrest ih => exact ih hresult (hstart.apply _)
  | passes hrun hrest ih => exact ih hresult hstart
  | ignored hrun hmode hrest ih => exact ih hresult hstart
  | fails => cases hresult
  | timesOut => cases hresult

private theorem getD_eq_iff {o : Option Json} {p q : Json} (hne : p ≠ q) : o.getD p = q ↔ o = some q := by
  cases o with
  | none => exact ⟨fun h => absurd h hne, nofun⟩
  | some r => exact Option.some_inj.symm

/-- The modification that is reported gives the final event exactly if that reads back. -/
theorem Alike.apply_content_iff {event final : HookEvent} (h : Alike event final)
    (hne : final.extractContent serde ≠ event.extractContent serde) :
    event.applyModification serde (final.extractContent serde) = final ↔ ReadsBack serde final := by
  cases h with
  | same => exact absurd rfl hne
  | inbound user channel x y thread => exact ⟨fun _ => trivial, fun _ => rfl⟩
  | outbound user channel x y thread => exact ⟨fun _ => trivial, fun _ => rfl⟩
  | responseTransform user thread x y => exact ⟨fun _ => trivial, fun _ => rfl⟩
  | toolCall tool p q user context =>
    have hpq : p ≠ q := by
      rintro rfl
      exact hne rfl
    have hread : ReadsBack serde (.toolCall tool q user context) ↔
        (serde.fromStr (serde.toStr q)).getD p = q := (getD_eq_iff hpq).symm
    rw [hread]
    exact ⟨fun h => (HookEvent.toolCall.inj h).2.1, fun h => congrArg (HookEvent.toolCall tool · user context) h⟩

theorem Alike.goesOnWith {event final : HookEvent} (h : Alike event final) (hback : ReadsBack serde final)
    (hne : final.extractContent serde ≠ event.extractContent serde) :
    GoesOnWith serde (.proceed (some (final.extractContent serde))) event final := by
  cases h with
  | same => exact absurd rfl hne
  | inbound user channel x y thread => exact trivial
  | outbound user channel x y thread => exact trivial
  | responseTransform user thread x y => exact trivial
  | toolCall tool p q user context =>
    have hread : serde.fromStr (serde.toStr q) = some q := hback
    change (serde.fromStr (serde.toStr q)).getD p = q
    rw [hread]
    rfl

end Execution

/-- After any registrations, the hooks of an event's point are executed in the order of their priority
and registration, each with the event as its predecessors left it, up to the one that stops the chain;
and the outcome is what the chain ends in, reported as a modification of the primary content. -/
theorem run_chain (serde : Serde) (calls : List RegistryCall) (event : HookEvent) :
    ∃ entries, InOrder
        ((registered calls).filter fun e => e.hook.hookPoints.contains event.hookPoint) entries ∧
      ∃ seen result, Executes serde (entries.map HookEntry.hook) event seen result ∧
        Reported serde event result (run serde ((registryAfter calls).map HookEntry.hook) event) := by
  refine ⟨_, (registryAfter_inOrder calls).filter _, ?_⟩
  have hmatching : (((registryAfter calls).map HookEntry.hook).filter fun hook =>
      hook.hookPoints.contains event.hookPoint) = ((registryAfter calls).filter fun e =>
        e.hook.hookPoints.contains event.hookPoint).map HookEntry.hook := by
    rw [List.filter_map]
    rfl
  obtain ⟨seen, hseen⟩ := runChain_executes serde (((registryAfter calls).filter fun e =>
    e.hook.hookPoints.contains event.hookPoint).map HookEntry.hook) event
  refine ⟨seen, _, hseen, ?_⟩
  unfold run
  rw [hmatching]
  dsimp only
  cases hresult : runChain serde (((registryAfter calls).filter fun e =>
      e.hook.hookPoints.contains event.hookPoint).map HookEntry.hook) event with
  | error err => exact .stopped err
  | ok final =>
    have halike : Alike event final := hseen.alike hresult (.same event)
    dsimp only
    by_cases hne : final.extractContent serde ≠ event.extractContent serde
    · rw [if_pos hne]
      exact .modified final _ rfl hne (halike.apply_content_iff hne) fun hback => halike.goesOnWith hback hne
    · rw [if_neg hne]
      exact .same final (not_not.mp hne)

section Rounding

/-- A number next to 9.8683060658469185e-8, as parameters. -/
def stepOf (bits : UInt64) : Json := .object [("step", .number (.float bits))]

def lower : Json := stepOf 4502048709365043760

def upper : Json := stepOf 4502048709365043761

/-- How the three texts that occur here are printed and read: the digits that the lower number is
printed with are read as the upper one. -/
def roundingSerde : Serde where
  toStr v :=
    if v = lower then "\x7b\"step\":9.868306065846919e-8\x7d"
    else if v = upper then "\x7b\"step\":9.86830606584692e-8\x7d"
    else "\x7b\x7d"
  toStrPretty _ := ""
  fromStr s :=
    if s = "\x7b\"step\":9.8683060658469180e-8\x7d" then some lower
    else if s = "\x7b\"step\":9.868306065846919e-8\x7d" then some upper
    else if s = "\x7b\"step\":9.86830606584692e-8\x7d" then some upper
    else none

def stepHook : Hook where
  name := "step"
  hookPoints := [.beforeToolCall]
  failureMode := .failOpen
  timeout := "5s"
  trustedTools := []
  execute _ := .finished (.proceed (some "\x7b\"step\":9.8683060658469180e-8\x7d"))

/-- A modification is reported that gives other parameters than the chain did. -/
theorem modification_rounded :
    let hooks := (registryAfter [.register stepHook 100]).map HookEntry.hook
    let event : HookEvent := .toolCall "measure" (.object []) "user" "chat"
    let value := "\x7b\"step\":9.868306065846919e-8\x7d"
    runChain roundingSerde hooks event = .ok (.toolCall "measure" lower "user" "chat") ∧
      run roundingSerde hooks event = .ok (.proceed (some value)) ∧
      event.applyModification roundingSerde value = .toolCall "measure" upper "user" "chat" ∧
      upper ≠ lower := by
  have hregistry : registryAfter [.register stepHook 100] = [⟨stepHook, 100⟩] :=
    List.mergeSort_singleton _
  rw [hregistry]
  decide +kernel

end Rounding

end Gyre.Hooks
