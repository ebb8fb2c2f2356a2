import SpiderDiagrams.Diagram.Preorder

/-!
# Rewriting walks

A walk visits the sub-diagrams of a tree in pre-order and asks a rewriter about each. The rewriter
sees where it is in the tree that the walk began with, keeps a state of its own, and answers whether to
go on below, to pass the sub-diagram over, to put another diagram in its place, or to end the walk.
Indices, paths and sizes always refer to the tree before any replacement.
-/
namespace SpiderDiagrams

/-- Where a visited sub-diagram stands in the tree that is walked. -/
structure Context where
  index : Nat
  path : List Nat
  size : Nat
  deriving DecidableEq, Repr

namespace Context

def depth (ctx : Context) : Nat := ctx.path.length

def contains (ctx : Context) (i : Nat) : Bool := ctx.index ≤ i && i < ctx.index + ctx.size

end Context

inductive Visit where
  | descend
  | skip
  | replace (replacement : Diagram)
  | halt
  deriving DecidableEq

/-- Answers a visit or fails, and passes on its state in both cases. -/
abbrev Rewriter (σ : Type) := Context → Diagram → σ → Except DiagramError Visit × σ

namespace Rewriter

def identity : Rewriter Unit := fun _ _ s => (.ok .descend, s)

end Rewriter

/-- A walk in progress: the index of the next visit, the path to it, and the rewriter's state. -/
structure Walk (σ : Type) where
  next : Nat
  path : List Nat
  halted : Bool
  state : σ

namespace Walk

variable {σ : Type}

def start (s : σ) : Walk σ := ⟨0, [], false, s⟩

def enter (position : Nat) (w : Walk σ) : Walk σ := { w with path := w.path ++ [position] }

def leave (w : Walk σ) : Walk σ := { w with path := w.path.dropLast }

def advance (steps : Nat) (w : Walk σ) : Walk σ := { w with next := w.next + steps }

/-- The context of the next visit; its size is read from the table of sizes of the whole tree. -/
def context (sizes : Array Nat) (w : Walk σ) : Context := ⟨w.next, w.path, sizes.getD w.next 0⟩

def ask (rewriter : Rewriter σ) (sizes : Array Nat) (node : Diagram) (w : Walk σ) :
    Except DiagramError Visit × Walk σ :=
  let (answer, state) := rewriter (w.context sizes) node w.state
  (answer, { w with state })

/-- Rewrites the next sub-diagram, and everything below it where the rewriter descends. -/
def visit (rewriter : Rewriter σ) (sizes : Array Nat) (node : Diagram) (w : Walk σ) :
    Except DiagramError Diagram × Walk σ :=
  if w.halted then (.ok node, w)
  else
    let size := (w.context sizes).size
    match w.ask rewriter sizes node with
    | (.error e, w) => (.error e, w)
    | (.ok .halt, w) => (.ok node, { w with halted := true })
    | (.ok .skip, w) => (.ok node, w.advance size)
    | (.ok (.replace d), w) => (.ok d, w.advance size)
    | (.ok .descend, w) =>
      match node with
      | .null => (.ok .null, w.advance 1)
      | .primary p => (.ok (.primary p), w.advance 1)
      | .negation d =>
        let (d, w) := visit rewriter sizes d ((w.advance 1).enter 0)
        (d.map .negation, w.leave)
      | .binary c l r =>
        match visit rewriter sizes l ((w.advance 1).enter 0) with
        | (.error e, w) => (.error e, w.leave)
        | (.ok l, w) =>
          let (r, w) := visit rewriter sizes r (w.leave.enter 1)
          (r.map (.binary c l), w.leave)

end Walk

/-- Walks the whole tree. The rewriter's last state is given back even where it fails. -/
def Diagram.rewrite {σ : Type} (rewriter : Rewriter σ) (tree : Diagram) (s : σ) :
    Except DiagramError Diagram × σ :=
  let (result, w) := Walk.visit rewriter tree.sizes.toArray tree (.start s)
  (result, w.state)

end SpiderDiagrams
