/-
More turns.

What an edit does with some number of turns it does with more as well, so the number has
no part in what comes out: it only has to be large enough.
-/
import DeviceScript.Edit.Compiler
import DeviceScript.Proofs.Edit.Refinement

namespace DeviceScript
namespace Edit

variable {α β : Type}

/-- Where the first edit has a result, the second has the same. -/
structure Le (m m' : Edit α) : Prop where
  result : ∀ {w r}, m w = some r → m' w = some r

theorem Le.refl (m : Edit α) : m.Le m := ⟨id⟩

theorem Le.trans {m m' m'' : Edit α} (h : m.Le m') (h' : m'.Le m'') : m.Le m'' :=
  ⟨fun hr => h'.result (h.result hr)⟩

theorem outside_le (m : Edit α) : outside.Le m := ⟨nofun⟩

theorem Le.bind {m m' : Edit α} {f f' : α → Edit β} (h : m.Le m') (hf : ∀ a, (f a).Le (f' a)) :
    (m >>= f).Le (m' >>= f') := by
  constructor
  intro w r hr
  cases hm : m w with
  | none =>
    rw [bind_eq_none hm] at hr
    cases hr
  | some q =>
    obtain ⟨result, u⟩ := q
    cases result with
    | error e =>
      rw [bind_error hm] at hr
      rw [bind_error (h.result hm), hr]
    | ok a =>
      rw [bind_ok hm] at hr
      rw [bind_ok (h.result hm), (hf a).result hr]

/-- What is read first is the same on both sides. -/
theorem le_bind {m : Edit α} {f f' : α → Edit β} (hf : ∀ a, (f a).Le (f' a)) :
    (m >>= f).Le (m >>= f') :=
  (Le.refl m).bind hf

theorem le_of_steps {f : Nat → Edit α} (h : ∀ n, (f n).Le (f (n + 1))) {n m : Nat} (hle : n ≤ m) :
    (f n).Le (f m) := by
  induction hle with
  | refl => exact .refl _
  | step _ ih => exact ih.trans (h _)

theorem parse_le (registry : Registry) (turns index : Nat) :
    (parse registry turns index).Le (parse registry (turns + 1) index) := by
  induction turns generalizing index with
  | zero => exact outside_le _
  | succ turns ih =>
    refine le_bind fun next => le_bind fun t => ?_
    cases t.bind Piece.connective? with
    | none => exact .refl _
    | some k =>
      refine le_bind fun count => ?_
      by_cases hin : next + 1 < count
      · rw [if_pos hin, if_pos hin]
        exact le_bind fun _ => ih (next + 1)
      · rw [if_neg hin, if_neg hin]
        exact .refl _

mutual

theorem resolveOperand_le (limit turns depth index : Nat) :
    (resolveOperand limit turns depth index).Le (resolveOperand limit (turns + 1) depth index) := by
  match turns with
  | 0 =>
    rw [resolveOperand]
    exact outside_le _
  | turns + 1 =>
    rw [resolveOperand, resolveOperand]
    by_cases hd : limit ≤ depth
    · rw [if_pos hd, if_pos hd]
      exact .refl _
    rw [if_neg hd, if_neg hd]
    refine le_bind fun t => ?_
    rcases t with _ | t
    · exact .refl _
    cases t with
    | not =>
      refine le_bind fun _ => ?_
      exact (resolveOperand_le limit turns (depth + 1) index).bind fun _ => .refl _
    | openParen => exact (resolveChain_le limit turns (depth + 1) (index + 1)).bind fun _ => .refl _
    | _ => exact .refl _
termination_by 2 * turns

theorem resolveChain_le (limit turns depth index : Nat) :
    (resolveChain limit turns depth index).Le (resolveChain limit (turns + 1) depth index) := by
  rw [resolveChain, resolveChain]
  exact (resolveOperand_le limit turns depth index).bind fun _ =>
    resolveLinks_le limit turns depth index
termination_by 2 * turns + 1

theorem resolveLinks_le (limit turns depth index : Nat) :
    (resolveLinks limit turns depth index).Le (resolveLinks limit (turns + 1) depth index) := by
  match turns with
  | 0 =>
    rw [resolveLinks]
    exact outside_le _
  | turns + 1 =>
    rw [resolveLinks, resolveLinks]
    refine le_bind fun count => ?_
    by_cases hin : index + 2 < count
    · rw [if_pos hin, if_pos hin]
      refine le_bind fun t => ?_
      cases Piece.connective? t with
      | none => exact .refl _
      | some k =>
        refine (resolveOperand_le limit turns depth (index + 2)).bind fun _ => ?_
        refine le_bind fun right => le_bind fun _ => le_bind fun left => ?_
        exact le_bind fun _ => le_bind fun _ => resolveLinks_le limit turns depth index
    · rw [if_neg hin, if_neg hin]
      exact .refl _
termination_by 2 * turns

end

end Edit

namespace Editor

open Edit

/-- The second editor goes at least as far as the first. -/
structure Le (e e' : Editor) : Prop where
  starts : e.starts = e'.starts
  convertNext : ∀ index, (e.convertNext index).Le (e'.convertNext index)

variable {e e' : Editor} {n m : Nat}

theorem Le.refl (e : Editor) : e.Le e := ⟨rfl, fun _ => .refl _⟩

theorem Le.processFrom (h : e.Le e') (hle : n ≤ m) (cursor : Nat) :
    (e.processFrom n cursor).Le (e'.processFrom m cursor) := by
  induction n generalizing m cursor with
  | zero => exact outside_le _
  | succ n ih =>
    obtain ⟨m, rfl⟩ := Nat.exists_eq_add_of_lt hle
    have hle' : n ≤ n + m := Nat.le_add_right n m
    rw [Editor.processFrom, Editor.processFrom, h.starts]
    refine le_bind fun count => ?_
    by_cases hin : cursor < count
    · rw [if_pos hin, if_pos hin]
      refine le_bind fun t => ?_
      by_cases hs : e'.starts t = true
      · rw [if_pos hs, if_pos hs]
        exact (h.convertNext cursor).bind fun next => ih hle' next
      · rw [if_neg hs, if_neg hs]
        exact ih hle' (cursor + 1)
    · rw [if_neg hin, if_neg hin]
      exact .refl _

theorem condition_le (registry : Registry) (limit : Nat) (hle : n ≤ m) :
    (condition registry limit n).Le (condition registry limit m) where
  starts := rfl
  convertNext index := by
    have hparse := le_of_steps (fun turns => parse_le registry turns (index + 1)) hle
    have hresolve := le_of_steps (fun turns => resolveChain_le limit turns 0 (index + 1)) hle
    exact le_bind fun _ => hparse.bind fun _ => hresolve.bind fun _ => .refl _

end Editor

/-- The number of turns has no part in what a pass does, once it is large enough. -/
theorem Compiler.editor_le (c : Compiler) (kind : PassKind) {n m : Nat} (hle : n ≤ m) :
    (c.editor n kind).Le (c.editor m kind) := by
  cases kind with
  | condition => exact Editor.condition_le _ _ hle
  | _ => exact .refl _

end DeviceScript
