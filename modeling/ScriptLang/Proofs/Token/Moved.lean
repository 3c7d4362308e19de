import ScriptLang.Parse.State
import ScriptLang.Proofs.Tree.Moved

/-!
# Tokens that are moved

Tokens, and what was noticed while they were read, say where they stand just as
trees do.  Moving them changes no lexeme and no cause, so it changes neither which
tokens are comments nor how many errors there are.
-/

namespace ScriptLang

variable (φ : Position → Position)

/-- A token that is moved. -/
def Token.moved (t : Token) : Token := { t with span := t.span.moved φ }

/-- Something noticed at a place that is moved. -/
def Located.moved (l : Located α) : Located α := { l with position := φ l.position }

/-- Notes that are moved. -/
def Notes.moved (n : Notes) : Notes :=
  ⟨n.error.map (Located.moved φ), n.warnings.map (Located.moved φ)⟩

/-- A token with its notes that is moved. -/
def Lexed.moved (l : Lexed) : Lexed := ⟨l.token.moved φ, l.notes.moved φ⟩

/-- An entry that is moved. -/
def Entry.moved (e : Entry) : Entry :=
  ⟨e.token.moved φ, e.notes.map (Notes.moved φ)⟩

@[simp] theorem Token.lexeme_moved (t : Token) : (t.moved φ).lexeme = t.lexeme :=
  rfl

@[simp] theorem Token.kind_moved (t : Token) : (t.moved φ).kind = t.kind := rfl

@[simp] theorem Token.span_moved (t : Token) : (t.moved φ).span = t.span.moved φ :=
  rfl

theorem Token.moved_id (t : Token) : t.moved id = t := rfl

theorem Located.moved_id (l : Located α) : l.moved id = l := rfl

/-- Notes that are moved nowhere are themselves. -/
theorem Notes.moved_id (n : Notes) : n.moved id = n := by
  obtain ⟨error, warnings⟩ := n
  have hmoved : ∀ α : Type, (Located.moved id : Located α → Located α) = id :=
    fun _ => rfl
  rw [moved, hmoved, hmoved, Option.map_id, List.map_id]
  rfl

/-- A token that is moved nowhere is itself. -/
theorem Lexed.moved_id (l : Lexed) : l.moved id = l := by
  rw [moved, Notes.moved_id, Token.moved_id]

end ScriptLang
