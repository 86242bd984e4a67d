import RegexAudit.Proofs.Text.Slice
import RegexAudit.Script.Parser

/-!
# Moving a source

What is known of the places in a source when the source is moved, because some text is put in front
of it: all offsets grow by the width of that text. What tokens and trees say is moved with them.

## Main definitions

* `Span.shift`, `Cursor.shift`: a span and a place, moved.
* `Token.shift`, `Expr.shift`, `Script.shift`: what stands in a source, moved.
* `Fault.shift`: a fault, moved.

## Main statements

* `Text.slice?_shift`: a moved span covers in the longer text what it covered before.
* `Expr.height_shift`, `Expr.calls_shift`: moving a tree does not change its shape.
-/

namespace RegexAudit

/-- The span, moved by some bytes. -/
def Span.shift (w : Nat) (s : Span) : Span := ⟨s.start + w, s.stop + w⟩

namespace Span

variable (w : Nat) (s t : Span)

@[simp] theorem shift_start : (s.shift w).start = s.start + w := rfl

@[simp] theorem shift_stop : (s.shift w).stop = s.stop + w := rfl

@[simp] theorem length_shift : (s.shift w).length = s.length := Nat.add_sub_add_right ..

@[simp] theorem cover_shift : (s.shift w).cover (t.shift w) = (s.cover t).shift w := by
  simp only [cover, shift, Span.mk.injEq]
  omega

theorem shift_injective : Function.Injective (Span.shift w) := by
  rintro ⟨a, b⟩ ⟨c, d⟩ h
  simp only [shift, Span.mk.injEq] at h ⊢
  omega

end Span

/-- The place, moved by some bytes. The same text is still to be read there. -/
def Cursor.shift (w : Nat) (c : Cursor) : Cursor := ⟨c.offset + w, c.rest⟩

namespace Cursor

variable (w : Nat) (c d : Cursor)

@[simp] theorem shift_offset : (c.shift w).offset = c.offset + w := rfl

@[simp] theorem shift_rest : (c.shift w).rest = c.rest := rfl

@[simp] theorem past_shift (read rest : List Char) :
    (c.shift w).past read rest = (c.past read rest).shift w := by
  simp only [past, shift, Cursor.mk.injEq, and_true]
  omega

@[simp] theorem spanTo_shift : (c.shift w).spanTo (d.shift w) = (c.spanTo d).shift w := rfl

end Cursor

namespace Text

variable (p s : List Char)

/-- What is left behind a leading part does not depend on this part. -/
theorem splitAt?_add_width (n : Nat) :
    splitAt? (n + width p) (p ++ s) = (splitAt? n s).map fun (l, r) => (p ++ l, r) := by
  induction p with
  | nil => simp
  | cons c cs ih =>
    have hpos := c.utf8Size_pos
    obtain ⟨m, hm⟩ : ∃ m, n + width (c :: cs) = m + 1 := ⟨n + width (c :: cs) - 1, by simp; omega⟩
    have hle : c.utf8Size ≤ m + 1 := by
      rw [width_cons] at hm
      omega
    have hrest : m + 1 - c.utf8Size = n + width cs := by
      rw [width_cons] at hm
      omega
    rw [hm, List.cons_append, splitAt?, if_pos hle, hrest, ih, Option.map_map]
    rfl

theorem drop?_add_width (n : Nat) : drop? (n + width p) (p ++ s) = drop? n s := by
  rw [drop?_eq, drop?_eq, splitAt?_add_width, Option.map_map]
  rfl

/-- A moved span covers in the longer text what it covered before. -/
theorem slice?_shift (span : Span) : slice? (p ++ s) (span.shift (width p)) = slice? s span := by
  simp only [slice?, Span.shift_start, Span.shift_stop, Span.length_shift, drop?_add_width,
    Nat.add_le_add_iff_right]

theorem slice_shift (span : Span) : slice (p ++ s) (span.shift (width p)) = slice s span := by
  rw [slice, slice, slice?_shift]

end Text

namespace Script

/-! What stands in a source is moved with its spans, and is otherwise what it was. -/

def Entry.shift (w : Nat) (e : Entry) : Entry := { e with range := e.range.shift w }

def StringLiteral.shift (w : Nat) (l : StringLiteral) : StringLiteral :=
  { l with entries := l.entries.map (·.shift w) }

def TokenKind.shift (w : Nat) : TokenKind → TokenKind
  | .string literal => .string (literal.shift w)
  | kind => kind

def Token.shift (w : Nat) (t : Token) : Token := ⟨t.kind.shift w, t.range.shift w⟩

def Fault.shift (w : Nat) (fault : Fault) : Fault := { fault with offset := fault.offset + w }

def Ident.shift (w : Nat) (i : Ident) : Ident := { i with range := i.range.shift w }

mutual

def Expr.shift (w : Nat) : Expr → Expr
  | .string range literal => .string (range.shift w) (literal.shift w)
  | .integer range value => .integer (range.shift w) value
  | .name range text => .name (range.shift w) text
  | .binary range op lhs rhs => .binary (range.shift w) op (lhs.shift w) (rhs.shift w)
  | .dot range receiver member => .dot (range.shift w) (receiver.shift w) (member.shift w)
  | .call range callee args => .call (range.shift w) (callee.shift w) (Expr.shiftAll w args)
  | .paren range inner => .paren (range.shift w) (inner.shift w)

def Expr.shiftAll (w : Nat) : List Expr → List Expr
  | [] => []
  | e :: es => e.shift w :: Expr.shiftAll w es

end

def Call.shift (w : Nat) (call : Call) : Call :=
  ⟨call.callee.shift w, call.args.map (·.shift w)⟩

def Statement.shift (w : Nat) : Statement → Statement
  | .declaration isMutable name init => .declaration isMutable (name.shift w) (init.shift w)
  | .assignment name value => .assignment (name.shift w) (value.shift w)
  | .expression expr => .expression (expr.shift w)

/-- Only literals change when they are moved. -/
theorem TokenKind.shift_eq_iff {w : Nat} {kind kind' : TokenKind} (h : ∀ l, kind' ≠ .string l) :
    kind.shift w = kind' ↔ kind = kind' := by
  cases kind with
  | string l => exact ⟨fun heq => absurd heq.symm (h _), fun heq => absurd heq.symm (h _)⟩
  | _ => exact Iff.rfl

@[simp] theorem TokenKind.shift_beq_newline (w : Nat) (kind : TokenKind) :
    (kind.shift w == .newline) = (kind == .newline) := by
  cases kind <;> rfl

@[simp] theorem TokenKind.shift_beq_semicolon (w : Nat) (kind : TokenKind) :
    (kind.shift w == .semicolon) = (kind == .semicolon) := by
  cases kind <;> rfl

namespace Expr

variable (w : Nat)

@[simp] theorem shiftAll_eq_map (es : List Expr) : shiftAll w es = es.map (·.shift w) := by
  induction es with
  | nil => rfl
  | cons e es ih => rw [shiftAll, ih, List.map_cons]

@[simp] theorem range_shift (e : Expr) : (e.shift w).range = e.range.shift w := by
  cases e <;> rfl

mutual

@[simp] theorem height_shift (e : Expr) : (e.shift w).height = e.height := by
  match e with
  | .string .. | .integer .. | .name .. => rfl
  | .binary _ _ lhs rhs => rw [shift, height, height, height_shift lhs, height_shift rhs]
  | .dot _ receiver _ => rw [shift, height, height, height_shift receiver]
  | .call _ callee args =>
    rw [shift, shiftAll_eq_map, height, height, height_shift callee, heightAll_shift args]
  | .paren _ inner => rw [shift, height, height, height_shift inner]

theorem heightAll_shift (es : List Expr) : heightAll (es.map (·.shift w)) = heightAll es := by
  match es with
  | [] => rfl
  | e :: es => rw [List.map_cons, heightAll, heightAll, height_shift e, heightAll_shift es]

end

mutual

/-- The calls of a moved expression are the moved calls. -/
theorem calls_shift (e : Expr) : (e.shift w).calls = e.calls.map (·.shift w) := by
  match e with
  | .string .. | .integer .. | .name .. => rfl
  | .binary _ _ lhs rhs =>
    rw [shift, calls, calls, calls_shift lhs, calls_shift rhs, List.map_append]
  | .dot _ receiver _ => rw [shift, calls, calls, calls_shift receiver]
  | .call _ callee args =>
    rw [shift, shiftAll_eq_map, calls, calls, calls_shift callee, callsAll_shift args,
      List.map_cons, List.map_append]
    rfl
  | .paren _ inner => rw [shift, calls, calls, calls_shift inner]

theorem callsAll_shift (es : List Expr) :
    callsAll (es.map (·.shift w)) = (callsAll es).map (·.shift w) := by
  match es with
  | [] => rfl
  | e :: es =>
    rw [List.map_cons, callsAll, callsAll, calls_shift e, callsAll_shift es, List.map_append]

end

theorem path?_shift (e : Expr) : (e.shift w).path? = e.path? := by
  match e with
  | .string .. | .integer .. | .name .. | .binary .. | .call .. | .paren .. => rfl
  | .dot _ receiver member =>
    rw [shift, path?, path?, path?_shift receiver]
    rfl

@[simp] theorem referencedName?_shift (e : Expr) :
    (e.shift w).referencedName? = e.referencedName? := by
  cases e <;> rfl

end Expr

theorem Statement.expr_shift (w : Nat) (s : Statement) : (s.shift w).expr = s.expr.shift w := by
  cases s <;> rfl

end Script

/-- The script, moved by some bytes. -/
def Script.shift (w : Nat) (script : Script) : Script := ⟨script.statements.map (·.shift w)⟩

/-- The calls of a moved script are the moved calls. -/
theorem Script.calls_shift (w : Nat) (script : Script) :
    (script.shift w).calls = script.calls.map (·.shift w) := by
  simp only [Script.calls, Script.shift, List.flatMap_map, List.map_flatMap, Statement.expr_shift,
    Expr.calls_shift]

end RegexAudit
