import TypedRecords.Name.Bisection
import TypedRecords.Name.Program
import TypedRecords.Name.Trie

/-!
# From the trie to the program

The children of every node become a run of arms, cut into scans and splits. Steps are laid out
bottom up: what a step leads to stands before it, the lower part of a split before the upper, and
the arms of one scan stand together.
-/

namespace TypedRecords.Name

/-- The steps and arms laid out so far. -/
structure Layout where
  steps : Array Step
  arms : Array Arm
  deriving DecidableEq, Repr

namespace Layout

/-- Nothing is laid out. -/
def empty : Layout := ⟨#[], #[]⟩

/-- Appends a step and returns its place. -/
def push (l : Layout) (step : Step) : StepPlace × Layout :=
  (⟨UInt32.ofNat l.steps.size⟩, { l with steps := l.steps.push step })

/-- Appends arms and the step that scans them. -/
def pushScan (l : Layout) (arms : List Arm) : StepPlace × Layout :=
  let all := l.arms ++ arms
  { l with arms := all }.push (.scan (.ofNat l.arms.size) (.ofNat all.size))

end Layout

section

variable {α : Type} (arm : α → Layout → Arm × Layout)

/-- Makes an arm of each item in turn, laying out what the arm leads to. -/
def layArms : List α → Layout → List Arm × Layout
  | [], l => ([], l)
  | item :: items, l =>
    let (first, l) := arm item l
    let (others, l) := layArms items l
    (first :: others, l)

/-- Lays out the parts of a run, each uncut part as one scan, and returns the step for the whole. -/
def Bisection.lay : Bisection α → Layout → StepPlace × Layout
  | .run items, l =>
    let (arms, l) := layArms arm items l
    l.pushScan arms
  | .cut pivot lower upper, l =>
    let (lowerStep, l) := lower.lay l
    let (upperStep, l) := upper.lay l
    l.push (.split pivot lowerStep upperStep)

end

/-- Lays out the dispatch over nodes of one parent, below which paths are at most `depth` long. -/
def Trie.layLevel (t : Trie) (limit : Nat) : Nat → List NodePlace → Layout → StepPlace × Layout
  | 0, _, l => l.pushScan []
  | depth + 1, ids, l =>
    let arm (id : NodePlace) (l : Layout) : Arm × Layout :=
      let node := t.node id
      if node.children.isEmpty then (⟨node.key, node.field, none⟩, l)
      else
        let (step, l) := t.layLevel limit depth node.children l
        (⟨node.key, node.field, some step⟩, l)
    (bisect (fun id => (t.node id).key) limit ids).lay arm l

/-- The program of a trie. Runs of fewer than `limit` arms are scanned, longer ones are split. -/
def Trie.compile (t : Trie) (limit : Nat) : Program :=
  let (entry, l) := t.layLevel limit t.depth t.root.children .empty
  { steps := l.steps, arms := l.arms, entry, depth := t.depth }

/-- The limit used where none is asked for. -/
def defaultLimit : Nat := 4

end TypedRecords.Name
