/-
# What stops the tokens of a YAML text

The reading of a YAML text stops because the text is malformed, or at a scalar. While tokens
are told apart, a scalar stops it only between double quotes, where an escape is the number of
no character; the fault then stands at the end of the tokens (`Token.reads_ofText`).

There is one lemma for each reader of characters and for each step of the lexer. A step keeps
the tokens readable: it adds none that is a fault.

Key definitions: `Reads`, `IsEscape`, `Token.Readable`.
-/
import ArgSchema.Yaml.Token
import ArgSchema.Proofs.Results

namespace ArgSchema
namespace Yaml

/-- What is known of trouble: if a scalar is the reason, its fault satisfies `Q`. -/
def Trouble.Meets (Q : ScalarFault → Prop) : Trouble → Prop
  | .malformed => True
  | .scalar f => Q f

/-- What is read satisfies `P`; a scalar that stops the reading has a fault that satisfies `Q`. -/
abbrev Reads {α : Type} (P : α → Prop) (Q : ScalarFault → Prop) (x : Except Trouble α) : Prop :=
  Yields P (Trouble.Meets Q) x

section

variable {α : Type} {P P' : α → Prop} {Q Q' : ScalarFault → Prop} {x : Except Trouble α}

theorem Reads.malformed : Reads P Q (.error .malformed) := trivial

theorem Reads.mono (h : Reads P Q x) (hP : ∀ a, P a → P' a) (hQ : ∀ f, Q f → Q' f) : Reads P' Q' x := by
  refine Yields.mono h hP fun e he => ?_
  cases e with
  | malformed => trivial
  | scalar f => exact hQ f he

end

/-! ### Characters -/

/-- An escape is the number of no character. -/
def IsEscape (f : ScalarFault) : Prop := f = .noCharacter ∨ f = .hugeCharacter

/-- Only an escape stops the reading of characters, unless they are malformed. -/
abbrev Lexes {α : Type} (x : Except Trouble α) : Prop := Reads (fun _ => True) IsEscape x

namespace Cursor

theorem lexes_charOfNumber (n : Nat) : Lexes (charOfNumber n) := by
  unfold charOfNumber
  refine .ite (.ok trivial) ?_
  split
  · exact .inl rfl
  · exact .inr rfl

theorem lexes_quotedBreaks : ∀ (bound : Nat) (found : List Char) (c : Cursor), Lexes (quotedBreaks bound found c)
  | 0, _, _ => .ok trivial
  | bound + 1, found, c => by
    unfold quotedBreaks
    refine .ite Reads.malformed ?_
    simp only
    split
    · exact lexes_quotedBreaks bound _ _
    · exact .ok trivial

theorem lexes_quotedSpaces (c : Cursor) : Lexes (quotedSpaces c) := by
  unfold quotedSpaces
  refine .ite Reads.malformed ?_
  split
  · exact .ok trivial
  · exact .bind (lexes_quotedBreaks _ _ _) fun _ _ => .ok trivial

theorem lexes_quotedEscape (c : Cursor) : Lexes (quotedEscape c) := by
  unfold quotedEscape
  split
  · exact Reads.malformed
  split
  · exact .ok trivial
  · simp only
    split
    · exact .ite (.bind (lexes_charOfNumber _) fun _ _ => .ok trivial) Reads.malformed
    · exact Reads.malformed
  · split
    · exact lexes_quotedBreaks _ _ _
    · exact Reads.malformed

theorem lexes_quotedRun (double : Bool) : ∀ (bound : Nat) (read : List Char) (c : Cursor),
    Lexes (quotedRun double bound read c)
  | 0, _, _ => .ok trivial
  | bound + 1, read, c => by
    have ih := lexes_quotedRun double bound
    unfold quotedRun
    simp only
    split
    · exact .ite (ih _ _) (.ite (ih _ _) (.ok trivial))
    · exact .ite (.ok trivial) (ih _ _)
    · exact .ite (.bind (lexes_quotedEscape _) fun _ _ => ih _ _) (ih _ _)
    · exact .ok trivial

theorem lexes_quotedRuns (double : Bool) : ∀ (bound : Nat) (read : List Char) (c : Cursor),
    Lexes (quotedRuns double bound read c)
  | 0, _, _ => Reads.malformed
  | bound + 1, read, c => by
    unfold quotedRuns
    refine .bind (lexes_quotedRun double _ _ _) fun _ _ => .ite (.ok trivial) ?_
    exact .bind (lexes_quotedSpaces _) fun _ _ => lexes_quotedRuns double bound _ _

theorem lexes_quotedScalar (double : Bool) (c : Cursor) : Lexes (quotedScalar double c) :=
  .bind (lexes_quotedRuns double _ _ _) fun _ _ => .ok trivial

theorem lexes_indentOf (c : Cursor) : Lexes (indentOf c) := by
  unfold indentOf
  split
  · exact .ite Reads.malformed (.ite (.ok trivial) (.ok trivial))
  · exact .ok trivial

theorem lexes_blockHeader (c : Cursor) : Lexes (blockHeader c) := by
  unfold blockHeader
  simp only
  split
  · refine .bind (lexes_indentOf _) fun _ _ => ?_
    exact .bind (P := fun _ => True) (.ok trivial) fun _ _ => .ite (.ok trivial) Reads.malformed
  · refine .bind (lexes_indentOf _) fun _ _ => ?_
    split <;> exact .bind (P := fun _ => True) (.ok trivial) fun _ _ => .ite (.ok trivial) Reads.malformed

theorem lexes_ignoredLine (c : Cursor) : Lexes (ignoredLine c) := .ite (.ok trivial) Reads.malformed

theorem lexes_blockScalar (folded : Bool) (indent : Int) (c : Cursor) : Lexes (blockScalar folded indent c) := by
  unfold blockScalar
  refine .bind (lexes_blockHeader _) fun _ _ => .bind (lexes_ignoredLine _) fun _ _ => ?_
  simp only
  split <;> exact .ok trivial

end Cursor

/-! ### Tokens -/

namespace Token

/-- Tokens that can all be read. -/
def Readable (tokens : List Token) : Prop := ∀ f, fault f ∉ tokens

theorem Readable.append {ts : List Token} (hts : Readable ts) {t : Token} (ht : ∀ f, t ≠ fault f) :
    Readable (ts ++ [t]) := by
  intro f hf
  rcases List.mem_append.mp hf with hf | hf
  · exact hts f hf
  · exact ht f (List.mem_singleton.mp hf).symm

end Token

namespace Lexer

open Token (Readable)

/-- A step of the lexer keeps the tokens readable. -/
abbrev Steps (x : Except Trouble Lexer) : Prop := Reads (fun l => Readable l.tokens) IsEscape x

/-- The token that is read, with the place behind it, is no fault. -/
abbrev LexesToken (x : Except Trouble (Token × Cursor)) : Prop := Reads (fun p => ∀ f, p.1 ≠ .fault f) IsEscape x

theorem reads_giveUp (k : Option PendingKey) (Q : ScalarFault → Prop) : Reads (fun _ => True) Q (giveUp k) := by
  unfold giveUp
  split
  · exact .ite Reads.malformed (.ok trivial)
  · exact .ok trivial

section

variable {l : Lexer}

theorem readable_addAt (h : Readable l.tokens) (place : Nat) {t : Token} (ht : ∀ f, t ≠ .fault f) :
    Readable (l.addAt place t).tokens := by
  intro f hf
  rcases List.mem_append.mp hf with hf | hf
  · exact h f (List.mem_of_mem_take hf)
  · rcases List.mem_cons.mp hf with hf | hf
    · exact ht f hf.symm
    · exact h f (List.mem_of_mem_drop hf)

theorem reads_dropKey (h : Readable l.tokens) {Q : ScalarFault → Prop} :
    Reads (fun l => Readable l.tokens) Q l.dropKey := by
  unfold dropKey
  split
  · exact .bind (reads_giveUp _ _) fun _ _ => .ok h
  · exact .ok h

theorem steps_dropKey (h : Readable l.tokens) : Steps l.dropKey := reads_dropKey h

theorem steps_saveKey (h : Readable l.tokens) : Steps l.saveKey := by
  unfold saveKey
  exact .ite (.bind (steps_dropKey h) fun _ h => .ok h) (.ok h)

theorem readable_unwind (column : Int) : ∀ (outers : List Int) {l : Lexer}, Readable l.tokens →
    Readable (unwind column outers l).tokens
  | [], _, h => h
  | outer :: rest, l, h => by
    unfold unwind
    split
    · exact readable_unwind column rest (h.append fun _ => by simp)
    · exact h

theorem readable_unwindTo (h : Readable l.tokens) (column : Int) : Readable (l.unwindTo column).tokens := by
  unfold unwindTo
  split
  · exact h
  · exact readable_unwind column _ h

theorem steps_openBlock (h : Readable l.tokens) {t : Token} (ht : ∀ f, t ≠ .fault f) :
    Steps (l.openBlock t) := by
  unfold openBlock indentTo
  refine .ite (.ok h) (.ite Reads.malformed ?_)
  by_cases hopens : l.indent < l.column
  · rw [if_pos hopens]
    exact .ok (h.append ht)
  · rw [if_neg hopens]
    exact .ok h

theorem steps_documentMark (h : Readable l.tokens) {t : Token} (ht : ∀ f, t ≠ .fault f) :
    Steps (l.documentMark t) :=
  .bind (steps_dropKey (readable_unwindTo h _)) fun _ h => .ok (h.append ht)

theorem steps_flowStart (h : Readable l.tokens) {t : Token} (ht : ∀ f, t ≠ .fault f) : Steps (l.flowStart t) :=
  .bind (steps_saveKey h) fun _ h => .ok (h.append ht)

theorem steps_flowEnd (h : Readable l.tokens) {t : Token} (ht : ∀ f, t ≠ .fault f) : Steps (l.flowEnd t) := by
  refine .bind (steps_dropKey h) fun l h => ?_
  split
  · exact .ok (h.append ht)
  · exact Reads.malformed

theorem steps_flowComma (h : Readable l.tokens) : Steps l.flowComma :=
  .bind (steps_dropKey h) fun _ h => .ok (h.append fun _ => by simp)

theorem steps_entryDash (h : Readable l.tokens) : Steps l.entryDash :=
  .bind (steps_openBlock h fun _ => by simp) fun _ h => .bind (steps_dropKey h) fun _ h =>
    .ok (h.append fun _ => by simp)

theorem steps_keySign (h : Readable l.tokens) : Steps l.keySign :=
  .bind (steps_openBlock h fun _ => by simp) fun _ h => .bind (steps_dropKey h) fun _ h =>
    .ok (h.append fun _ => by simp)

theorem steps_valueColon (h : Readable l.tokens) : Steps l.valueColon := by
  unfold valueColon
  split
  · rename_i key rest _
    have hkey : Readable ({ l with pending := none :: rest, keyAllowed := false }.addAt key.place .key).tokens :=
      readable_addAt h _ fun _ => by simp
    simp only
    generalize { l with pending := none :: rest, keyAllowed := false }.addAt key.place .key = l at hkey ⊢
    have hopens : Readable (if l.inFlow then (false, l) else l.indentTo key.column).2.tokens := by
      unfold indentTo
      split
      · exact hkey
      · split <;> exact hkey
    generalize (if l.inFlow then (false, l) else l.indentTo key.column) = p at hopens ⊢
    obtain ⟨opened, l⟩ := p
    cases opened with
    | true => exact .ok ((readable_addAt hopens _ fun _ => by simp).append fun _ => by simp)
    | false => exact .ok (hopens.append fun _ => by simp)
  · exact .bind (steps_openBlock h fun _ => by simp) fun _ h => .bind (steps_dropKey h) fun _ h =>
      .ok (h.append fun _ => by simp)

theorem steps_keyLike (h : Readable l.tokens) {read : Cursor → Except Trouble (Token × Cursor)}
    (hread : ∀ c, LexesToken (read c)) : Steps (l.keyLike read) :=
  .bind (steps_saveKey h) fun _ h => .bind (hread _) fun _ ht => .ok (h.append ht)

theorem steps_plainToken (h : Readable l.tokens) : Steps l.plainToken :=
  .bind (steps_saveKey h) fun _ h => .ok (h.append fun _ => by simp)

theorem steps_blockToken (h : Readable l.tokens) (folded : Bool) : Steps (l.blockToken folded) :=
  .bind (steps_dropKey h) fun _ h => .bind (Cursor.lexes_blockScalar _ _ _) fun _ _ =>
    .ok (h.append fun _ => by simp)

theorem lexes_nameBehindSign (c : Cursor) : Lexes (nameBehindSign c) :=
  .ite Reads.malformed (.ite (.ok trivial) Reads.malformed)

theorem lexesToken_nameToken {make : String → Token} (hmake : ∀ name f, make name ≠ .fault f) (c : Cursor) :
    LexesToken (nameToken make c) :=
  .bind (lexes_nameBehindSign c) fun _ _ => .ok (hmake _)

theorem lexesToken_quotedToken (double : Bool) (c : Cursor) : LexesToken (quotedToken double c) :=
  .bind (Cursor.lexes_quotedScalar double c) fun _ _ => .ok fun _ => by simp

theorem lexes_numberedBytes (cs : List Char) : Lexes (numberedBytes cs) := by
  fun_induction numberedBytes cs with
  | case1 high low rest byte hbyte ih => exact .bind ih fun _ _ => .ok trivial
  | case2 => exact Reads.malformed
  | case3 => exact Reads.malformed
  | case4 => exact .ok trivial

theorem lexes_tagRun : ∀ (bound : Nat) (cs : List Char), Lexes (tagRun bound cs)
  | 0, _ => .ok trivial
  | _ + 1, [] => .ok trivial
  | bound + 1, c :: rest => by
    unfold tagRun
    refine .ite (.bind (lexes_numberedBytes _) fun p _ => ?_) (.ite ?_ (.ok trivial))
    · obtain ⟨bytes, rest⟩ := p
      simp only
      split
      · exact .bind (lexes_tagRun bound _) fun _ _ => .ok trivial
      · exact Reads.malformed
    · exact .bind (lexes_tagRun bound _) fun _ _ => .ok trivial

theorem lexes_tagText (c : Cursor) : Lexes (tagText c) :=
  .bind (lexes_tagRun _ _) fun _ _ => .ite Reads.malformed (.ok trivial)

theorem lexes_tagHandle (c : Cursor) : Lexes (tagHandle c) :=
  .ite Reads.malformed (.ite (.ok trivial) (.ite (.ok trivial) Reads.malformed))

theorem lexes_endWord (c : Cursor) : Lexes (endWord c) := .ite (.ok trivial) Reads.malformed

theorem lexesToken_tagBehindSign (c : Cursor) : LexesToken (tagBehindSign c) := by
  unfold tagBehindSign
  have hend : ∀ p : Token × Cursor, (∀ f, p.1 ≠ .fault f) →
      LexesToken (do
        endWord p.2
        .ok (p.1, p.2)) := fun p hp => .bind (lexes_endWord _) fun _ _ => hp
  have htag : ∀ (handle : Option String) (suffix : String) (c : Cursor),
      Reads (fun p : Token × Cursor => ∀ f, p.1 ≠ .fault f) IsEscape (.ok (.tag handle suffix, c)) :=
    fun _ _ _ _ => by simp
  simp only
  split
  · refine .bind (lexes_tagText _) fun _ _ => .ite (.bind (htag _ _ _) hend) ?_
    exact .bind Reads.malformed hend
  · refine .ite (.bind (htag _ _ _) hend) (.ite ?_ ?_)
    · refine .bind (lexes_tagHandle _) fun _ _ => ?_
      exact .bind (lexes_tagText _) fun _ _ => .bind (htag _ _ _) hend
    · exact .bind (lexes_tagText _) fun _ _ => .bind (htag _ _ _) hend
  · exact .bind (htag _ _ _) hend

theorem lexes_versionNumber (c : Cursor) : Lexes (versionNumber c) := .ite Reads.malformed (.ok trivial)

theorem lexes_versionAt (c : Cursor) : Lexes (versionAt c) := by
  refine .bind (lexes_versionNumber _) fun _ _ => .ite Reads.malformed ?_
  exact .bind (lexes_versionNumber _) fun _ _ => .bind (lexes_endWord _) fun _ _ => .ok trivial

theorem lexes_handleAt (c : Cursor) : Lexes (handleAt c) := by
  refine .bind (lexes_tagHandle _) fun _ _ => .ite Reads.malformed ?_
  exact .bind (lexes_tagText _) fun _ _ => .bind (lexes_endWord _) fun _ _ => .ok trivial

theorem lexesToken_directiveAt (c : Cursor) : LexesToken (directiveAt c) := by
  have hline : ∀ p : Directive × Cursor, LexesToken (do .ok (.directive p.1, ← p.2.ignoredLine)) := fun p =>
    .bind (Cursor.lexes_ignoredLine _) fun _ _ => .ok fun _ => by simp
  unfold directiveAt
  simp only
  refine .ite Reads.malformed (.bind (lexes_endWord _) fun _ _ => .ite ?_ (.ite ?_ ?_))
  · exact .bind (lexes_versionAt _) fun p _ => hline p
  · exact .bind (lexes_handleAt _) fun p _ => hline p
  · exact hline _

theorem steps_token (h : Readable l.tokens) (ch : Char) : Steps (l.token ch) := by
  unfold token
  refine .ite (.bind (steps_dropKey (readable_unwindTo h _)) fun _ h =>
    .bind (lexesToken_directiveAt _) fun _ ht => .ok (h.append ht)) ?_
  refine .ite (steps_documentMark h fun _ => by simp) (.ite (steps_documentMark h fun _ => by simp) ?_)
  refine .ite (steps_flowStart h fun _ => by simp) (.ite (steps_flowStart h fun _ => by simp) ?_)
  refine .ite (steps_flowEnd h fun _ => by simp) (.ite (steps_flowEnd h fun _ => by simp) ?_)
  refine .ite (steps_flowComma h) (.ite (steps_entryDash h) ?_)
  refine .ite (steps_keySign h) (.ite (steps_valueColon h) ?_)
  refine .ite (steps_keyLike h (lexesToken_nameToken fun _ _ => by simp)) ?_
  refine .ite (steps_keyLike h (lexesToken_nameToken fun _ _ => by simp)) ?_
  refine .ite (steps_keyLike h lexesToken_tagBehindSign) (.ite (steps_blockToken h _) ?_)
  exact .ite (steps_keyLike h (lexesToken_quotedToken _)) (.ite (steps_plainToken h) Reads.malformed)

theorem reads_giveUpIfStale (c : Cursor) (k : Option PendingKey) (Q : ScalarFault → Prop) :
    Reads (fun _ => True) Q (giveUpIfStale c k) := by
  unfold giveUpIfStale
  split
  · exact .ite (reads_giveUp _ _) (.ok trivial)
  · exact .ok trivial

theorem reads_dropStale (h : Readable l.tokens) {Q : ScalarFault → Prop} :
    Reads (fun l => Readable l.tokens) Q l.dropStale :=
  .bind (.mapM fun k _ => reads_giveUpIfStale _ k Q) fun _ _ => .ok h

theorem readable_skipGaps : ∀ (bound : Nat) {l : Lexer}, Readable l.tokens → Readable (skipGaps bound l).tokens
  | 0, _, h => h
  | bound + 1, l, h => by
    unfold skipGaps
    simp only
    split
    · exact readable_skipGaps bound h
    · exact h

end

theorem mem_settled {l : Lexer} {t : Token} (h : t ∈ l.settled) : t ∈ l.tokens := by
  unfold settled at h
  split at h
  · exact List.mem_of_mem_take h
  · exact h

/-- The tokens of a text can be read, apart from a fault at the end that an escape is. -/
theorem reads_run : ∀ (bound : Nat) {l : Lexer}, Readable l.tokens →
    Reads (fun tokens => ∀ f, Token.fault f ∈ tokens → IsEscape f) (fun _ => False) (run bound l)
  | 0, _, _ => Reads.malformed
  | bound + 1, l, h => by
    unfold run
    refine .bind (reads_dropStale h) fun l hl => ?_
    refine .bind (reads_dropStale (readable_skipGaps _ hl)) fun next h => ?_
    have hnext : Readable (next.unwindTo next.column).tokens := readable_unwindTo h _
    simp only
    split
    · refine .bind (reads_dropKey (readable_unwindTo hnext _)) fun last h f hf => ?_
      exact absurd hf (h f)
    · rename_i ch _
      have hstep := steps_token hnext ch
      split
      · rename_i htoken
        rw [htoken] at hstep
        exact reads_run bound hstep
      · rename_i cause htoken
        rw [htoken] at hstep
        intro f hf
        rcases List.mem_append.mp hf with hf | hf
        · exact absurd (mem_settled hf) (hl f)
        · obtain ⟨rfl⟩ := List.mem_singleton.mp hf
          exact hstep
      · exact Reads.malformed

end Lexer

/-- **The tokens of a text** are readable, apart from a fault at their end, which is an escape. -/
theorem Token.reads_ofText (text : String) :
    Reads (fun tokens => ∀ f, Token.fault f ∈ tokens → IsEscape f) (fun _ => False) (Token.ofText text) :=
  .ite (Lexer.reads_run _ fun f hf => by cases hf) Reads.malformed

end Yaml
end ArgSchema
