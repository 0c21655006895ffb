import SeriesCache.Number.Signed
/-!
# Time windows

A window is all instants between two bounds, both included; a bound may be absent.  Each
restriction keeps the tighter of two bounds.
-/
namespace SeriesCache

structure Window where
  first : Option Int64
  last : Option Int64
  deriving DecidableEq

namespace Window

def unbounded : Window := ⟨none, none⟩

def between (first last : Int64) : Window := ⟨some first, some last⟩

def bounds? (w : Window) : Option (Int64 × Int64) :=
  match w.first, w.last with
  | some a, some b => some (a, b)
  | _, _ => none

def restrictFirst (w : Window) (t : Int64) : Window :=
  { w with first := some (match w.first with | none => t | some a => if a < t then t else a) }

def restrictLast (w : Window) (t : Int64) : Window :=
  { w with last := some (match w.last with | none => t | some b => if t < b then t else b) }

def boundText : Option Int64 → Text
  | none => "empty".toList
  | some t => Signed.text t

def text (w : Window) : Text := '[' :: boundText w.first ++ ',' :: boundText w.last ++ [']']

def Contains (w : Window) (t : Int64) : Prop := (∀ a ∈ w.first, a ≤ t) ∧ (∀ b ∈ w.last, t ≤ b)

end Window
end SeriesCache
