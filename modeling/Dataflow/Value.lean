namespace Dataflow

/-- What is known of an int variable: nothing was ever stored, always the same constant, or not a
constant. -/
inductive Value where
  | undef
  | const (n : Int)
  | nac
  deriving DecidableEq

namespace Value

def meet : Value → Value → Value
  | nac, _ => nac
  | _, nac => nac
  | undef, v => v
  | v, undef => v
  | const m, const n => if m = n then const m else nac

def isConst : Value → Bool
  | const _ => true
  | _ => false

def text : Value → String
  | undef => "UNDEF"
  | const n => toString n
  | nac => "NAC"

@[simp] theorem undef_meet (v : Value) : undef.meet v = v := by
  cases v <;> rfl

@[simp] theorem meet_undef (v : Value) : v.meet undef = v := by
  cases v <;> rfl

@[simp] theorem nac_meet (v : Value) : nac.meet v = nac := by
  cases v <;> rfl

@[simp] theorem meet_nac (v : Value) : v.meet nac = nac := by
  cases v <;> rfl

@[simp] theorem meet_self (v : Value) : v.meet v = v := by
  cases v <;> simp [meet]

theorem meet_comm (v w : Value) : v.meet w = w.meet v := by
  cases v <;> cases w <;> simp only [meet]
  grind

theorem meet_assoc (u v w : Value) : (u.meet v).meet w = u.meet (v.meet w) := by
  cases u <;> cases v <;> cases w <;> simp only [meet] <;> grind [meet]

end Value

structure NotConstant where
  value : Value
  deriving DecidableEq

def NotConstant.message (e : NotConstant) : String := e.value.text ++ " is not a constant"

def Value.constant : Value → Except NotConstant Int
  | .const n => .ok n
  | v => .error ⟨v⟩

end Dataflow
