/-!
# Coroutines over a shared state

A coroutine runs until it waits; the next input tells what came of the wait and what others did
meanwhile. It has no result while it still waits, so a statement about every list of inputs is one
about every interleaving in which it returns. The rules below follow its text.
-/
namespace Loushang.Lib

def Coroutine (S I A : Type) : Type := S → List I → Option (A × S × List I)

namespace Coroutine

variable {S I A B : Type}

protected def pure (value : A) : Coroutine S I A := fun s inputs => some (value, s, inputs)

protected def bind (first : Coroutine S I A) (next : A → Coroutine S I B) : Coroutine S I B :=
  fun s inputs => (first s inputs).bind fun done => next done.1 done.2.1 done.2.2

instance : Monad (Coroutine S I) where
  pure := Coroutine.pure
  bind := Coroutine.bind

/-- Nothing ever comes of it. -/
def stuck : Coroutine S I A := fun _ _ => none

def input : Coroutine S I I
  | _, [] => none
  | s, i :: rest => some (i, s, rest)

def read (f : S → A) : Coroutine S I A := fun s inputs => some (f s, s, inputs)

def modify (f : S → S) : Coroutine S I Unit := fun s inputs => some ((), f s, inputs)

/-- From `s`, whatever the inputs: if it returns, `post` holds of the result and the state. -/
def Ensures (c : Coroutine S I A) (s : S) (post : A → S → Prop) : Prop :=
  ∀ inputs value s' rest, c s inputs = some (value, s', rest) → post value s'

variable {s : S} {post post' : A → S → Prop}

theorem Ensures.pure {value : A} (holds : post value s) : (Pure.pure value : Coroutine S I A).Ensures s post := by
  rintro inputs value' s' rest returned
  cases returned
  exact holds

variable {first : Coroutine S I A} {next : A → Coroutine S I B}

theorem Ensures.bind {post : B → S → Prop}
    (holds : first.Ensures s fun value s' => (next value).Ensures s' post) :
    (first >>= next).Ensures s post := by
  intro inputs value s' rest returned
  have returned : (first s inputs).bind (fun done => next done.1 done.2.1 done.2.2) = some (value, s', rest) :=
    returned
  obtain ⟨⟨middle, s'', inputs'⟩, started, finished⟩ := Option.bind_eq_some_iff.mp returned
  exact holds inputs middle s'' inputs' started inputs' value s' rest finished

variable {c : Coroutine S I A}

theorem Ensures.mono (holds : c.Ensures s post) (weaker : ∀ value s', post value s' → post' value s') :
    c.Ensures s post' :=
  fun inputs value s' rest returned => weaker value s' (holds inputs value s' rest returned)

theorem Ensures.and (holds : c.Ensures s post) (also : c.Ensures s post') :
    c.Ensures s fun value s' => post value s' ∧ post' value s' :=
  fun inputs value s' rest returned => ⟨holds inputs value s' rest returned, also inputs value s' rest returned⟩

theorem Ensures.any (c : Coroutine S I A) : c.Ensures s fun _ _ => True := fun _ _ _ _ _ => trivial

theorem Ensures.stuck : (Coroutine.stuck : Coroutine S I A).Ensures s post := nofun

theorem Ensures.input {post : I → S → Prop} (holds : ∀ i, post i s) : Coroutine.input.Ensures s post := by
  rintro (_ | ⟨i, inputs⟩) value s' rest returned
  · cases returned
  · cases returned
    exact holds i

theorem Ensures.read {f : S → A} (holds : post (f s) s) : (Coroutine.read f : Coroutine S I A).Ensures s post := by
  rintro inputs value s' rest returned
  cases returned
  exact holds

theorem Ensures.modify {f : S → S} {post : Unit → S → Prop} (holds : post () (f s)) :
    (Coroutine.modify f : Coroutine S I Unit).Ensures s post := by
  rintro inputs value s' rest returned
  cases returned
  exact holds

/-- `inv` holds again whenever the coroutine returns. -/
def Keeps (inv : S → Prop) (c : Coroutine S I A) : Prop := ∀ s, inv s → c.Ensures s fun _ s' => inv s'

variable {inv : S → Prop}

theorem Keeps.pure {value : A} : (Pure.pure value : Coroutine S I A).Keeps inv := fun _ holds => Ensures.pure holds

theorem Keeps.bind (kept : first.Keeps inv) (later : ∀ value, (next value).Keeps inv) :
    (first >>= next).Keeps inv :=
  fun s holds => Ensures.bind ((kept s holds).mono fun value s' held => later value s' held)

theorem Keeps.stuck : (Coroutine.stuck : Coroutine S I A).Keeps inv := fun _ _ => Ensures.stuck

theorem Keeps.input : (Coroutine.input : Coroutine S I I).Keeps inv := fun _ holds => Ensures.input fun _ => holds

theorem Keeps.read {f : S → A} : (Coroutine.read f : Coroutine S I A).Keeps inv :=
  fun _ holds => Ensures.read holds

theorem Keeps.modify {f : S → S} (kept : ∀ s, inv s → inv (f s)) :
    (Coroutine.modify f : Coroutine S I Unit).Keeps inv :=
  fun s holds => Ensures.modify (kept s holds)

end Coroutine

end Loushang.Lib
