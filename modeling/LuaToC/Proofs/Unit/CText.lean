import LuaToC.Text.Bytes

/-! # Reading C text

A small reader of C, to say what the text of a unit means for control flow.  It goes through
the text byte by byte in two stages.  The first makes words and marks of the bytes and drops
comments (`Mode`); the second tells directives from statements and reports, as `Event`s, the
macros that are defined and undefined, the labels, the branches and the values that instruction
words are given (`Place`).  Both stages are machines that emit as they go (`run`), so the reading
of a text is put together from the readings of its parts (`Reads.append`), and what a fixed part
says is found by running the reader on it.

Not meant are texts with trigraphs, spliced lines, or macros that have parameters.
-/
namespace LuaToC.CText

/-- Runs a machine that may emit something at every step. -/
def run {σ α β : Type} (step : σ → α → σ × List β) : σ → List α → σ × List β
  | s, [] => (s, [])
  | s, a :: as => ((run step (step s a).1 as).1, (step s a).2 ++ (run step (step s a).1 as).2)

theorem run_append {σ α β : Type} (step : σ → α → σ × List β) (s : σ) (as bs : List α) :
    run step s (as ++ bs) =
      ((run step (run step s as).1 bs).1, (run step s as).2 ++ (run step (run step s as).1 bs).2) := by
  induction as generalizing s with
  | nil => rfl
  | cons a as ih => simp only [List.cons_append, run, ih, List.append_assoc]

/-! ## Words and marks -/

/-- What a text is made of: words (names, keywords and numbers), single marks, literals, and the
ends of lines. -/
inductive Token where
  | word (w : Bytes)
  | mark (b : UInt8)
  | literal
  | lineEnd
  deriving DecidableEq

/-- The byte can stand in a word: a letter, a digit or an underscore. -/
def isWordByte (b : UInt8) : Bool :=
  (48 ≤ b && b ≤ 57) || (65 ≤ b && b ≤ 90) || b == 95 || (97 ≤ b && b ≤ 122)

/-- Where in the text the reader is: outside everything, in a word, after a slash, in one of the
two kinds of comments (after a star, in the second kind), or in a literal that ends with the
quote `q` (after a backslash). -/
inductive Mode where
  | plain
  | word (w : Bytes)
  | slash
  | lineComment
  | comment
  | star
  | quoted (q : UInt8)
  | escape (q : UInt8)
  deriving DecidableEq

namespace Mode

/-- A byte outside words, comments and literals. -/
def stepPlain (b : UInt8) : Mode × List Token :=
  if isWordByte b then (.word [b], [])
  else if b = byte '/' then (.slash, [])
  else if b = 34 ∨ b = 39 then (.quoted b, [])
  else if b = Bytes.newline then (.plain, [.lineEnd])
  else if b = 32 ∨ b = 9 then (.plain, [])
  else (.plain, [.mark b])

/-- The next byte. -/
def step : Mode → UInt8 → Mode × List Token
  | .plain, b => stepPlain b
  | .word w, b =>
    if isWordByte b then (.word (w ++ [b]), [])
    else ((stepPlain b).1, .word w :: (stepPlain b).2)
  | .slash, b =>
    if b = byte '*' then (.comment, [])
    else if b = byte '/' then (.lineComment, [])
    else ((stepPlain b).1, .mark (byte '/') :: (stepPlain b).2)
  | .lineComment, b => if b = Bytes.newline then (.plain, [.lineEnd]) else (.lineComment, [])
  | .comment, b => (if b = byte '*' then .star else .comment, [])
  | .star, b => (if b = byte '/' then .plain else if b = byte '*' then .star else .comment, [])
  | .quoted q, b => if b = q then (.plain, [.literal]) else (if b = 92 then .escape q else .quoted q, [])
  | .escape q, _ => (.quoted q, [])

end Mode

/-! ## Directives and statements -/

/-- What a text says about control flow. -/
inductive Event where
  /-- A directive gives a macro a value. -/
  | define (name : Bytes) (value : List Token)
  /-- A directive takes the value of a macro away. -/
  | undefine (name : Bytes)
  /-- A statement has a label. -/
  | label (name : Bytes)
  /-- A statement branches. -/
  | goto (target : Bytes)
  /-- An instruction word is given a value. -/
  | instruction (name value : Bytes)
  deriving DecidableEq

/-- The words that came last in the statements: none, one, two, or two and an equals sign. -/
inductive Recent where
  | nothing
  | word (w : Bytes)
  | words (v w : Bytes)
  | assigned (v w : Bytes)
  deriving DecidableEq

/-- A word after the word `v`: it may be where a branch goes. -/
def afterWord (v w : Bytes) : Recent × List Event :=
  (.words v w, if v = ascii "goto" then [.goto w] else [])

/-- The next token of the statements.  A word before a colon is taken for a label. -/
def Recent.step : Recent → Token → Recent × List Event
  | .nothing, .word w => (.word w, [])
  | .word v, .word w => afterWord v w
  | .words _ v, .word w => afterWord v w
  | .assigned v n, .word w => (.word w, if v = ascii "Instruction" then [.instruction n w] else [])
  | .word w, .mark b => (.nothing, if b = byte ':' then [.label w] else [])
  | .words v w, .mark b =>
    if b = byte '=' then (.assigned v w, [])
    else (.nothing, if b = byte ':' then [.label w] else [])
  | r, .lineEnd => (r, [])
  | _, _ => (.nothing, [])

/-- Where in a line the reader is: at its start, in a statement, or in a directive of which `ts`
was read.  A directive may stand in the middle of a statement. -/
inductive Place where
  | lineStart (r : Recent)
  | statement (r : Recent)
  | directive (r : Recent) (ts : List Token)
  deriving DecidableEq

/-- What a directive says. -/
def directiveEvents : List Token → List Event
  | .word d :: .word name :: ts =>
    if d = ascii "define" then [.define name ts]
    else if d = ascii "undef" then [.undefine name]
    else []
  | _ => []

/-- The next token. -/
def Place.step : Place → Token → Place × List Event
  | .lineStart r, .lineEnd => (.lineStart r, [])
  | .statement r, .lineEnd => (.lineStart r, [])
  | .directive r ts, .lineEnd => (.lineStart r, directiveEvents ts)
  | .directive r ts, t => (.directive r (ts ++ [t]), [])
  | .lineStart r, t =>
    if t = .mark (byte '#') then (.directive r [], []) else (.statement (r.step t).1, (r.step t).2)
  | .statement r, t => (.statement (r.step t).1, (r.step t).2)

/-- Where the reader is. -/
structure State where
  mode : Mode
  place : Place
  deriving DecidableEq

/-- At the start of a line, with no statement begun. -/
def State.start : State := ⟨.plain, .lineStart .nothing⟩

/-- The next byte: what the first stage makes of it goes through the second. -/
def State.step (s : State) (b : UInt8) : State × List Event :=
  (⟨(s.mode.step b).1, (run Place.step s.place (s.mode.step b).2).1⟩,
    (run Place.step s.place (s.mode.step b).2).2)

/-- What a text of whole lines says. -/
def events (text : Bytes) : List Event := (run State.step .start text).2

/-! ## Readings of parts -/

/-- The part `text`, read from `s` on, says `es` and leads to `t`. -/
def Reads (s : State) (text : Bytes) (es : List Event) (t : State) : Prop :=
  run State.step s text = (t, es)

instance (s : State) (text : Bytes) (es : List Event) (t : State) :
    Decidable (Reads s text es t) := inferInstanceAs (Decidable (_ = _))

theorem Reads.append {s t u : State} {a b : Bytes} {es fs : List Event} (ha : Reads s a es t)
    (hb : Reads t b fs u) : Reads s (a ++ b) (es ++ fs) u := by
  unfold Reads at *
  rw [run_append, ha, hb]

/-- Lines that begin and end outside all statements. -/
def Lines (text : Bytes) (es : List Event) : Prop := Reads .start text es .start

instance (text : Bytes) (es : List Event) : Decidable (Lines text es) :=
  inferInstanceAs (Decidable (Reads _ _ _ _))

theorem Lines.append {a b : Bytes} {es fs : List Event} (ha : Lines a es) (hb : Lines b fs) :
    Lines (a ++ b) (es ++ fs) := Reads.append ha hb

/-- Parts of whole lines make whole lines. -/
theorem Lines.flatMap {α : Type} {xs : List α} {text : α → List Bytes} {es : α → List Event}
    (h : ∀ x ∈ xs, Lines (Bytes.unlines (text x)) (es x)) :
    Lines (Bytes.unlines (xs.flatMap text)) (xs.flatMap es) := by
  induction xs with
  | nil => rfl
  | cons x xs ih =>
    have htail := ih fun y hy => h y (List.mem_cons_of_mem x hy)
    rw [List.flatMap_cons, List.flatMap_cons, Bytes.unlines, List.flatMap_append]
    exact (h x List.mem_cons_self).append htail

theorem Lines.events_eq {text : Bytes} {es : List Event} (h : Lines text es) :
    events text = es := congrArg Prod.snd h

/-- A word goes on for as long as there are bytes of words. -/
theorem reads_word_tail (p : Place) {w : Bytes} (hw : ∀ b ∈ w, isWordByte b = true) (v : Bytes) :
    Reads ⟨.word v, p⟩ w [] ⟨.word (v ++ w), p⟩ := by
  induction w generalizing v with
  | nil =>
    rw [List.append_nil]
    rfl
  | cons b w ih =>
    have hstep : State.step ⟨.word v, p⟩ b = (⟨.word (v ++ [b]), p⟩, []) := by
      rw [State.step, Mode.step, if_pos (hw b List.mem_cons_self)]
      rfl
    have htail := ih (fun c hc => hw c (List.mem_cons_of_mem b hc)) (v ++ [b])
    unfold Reads at *
    rw [run, hstep, htail, List.append_assoc]
    rfl

/-- Bytes of words make a word. -/
theorem reads_word (p : Place) {w : Bytes} (hw : ∀ b ∈ w, isWordByte b = true) (hne : w ≠ []) :
    Reads ⟨.plain, p⟩ w [] ⟨.word w, p⟩ := by
  cases w with
  | nil => exact absurd rfl hne
  | cons b w =>
    have hstep : State.step ⟨.plain, p⟩ b = (⟨.word [b], p⟩, []) := by
      rw [State.step, Mode.step, Mode.stepPlain, if_pos (hw b List.mem_cons_self)]
      rfl
    have htail := reads_word_tail p (fun c hc => hw c (List.mem_cons_of_mem b hc)) [b]
    unfold Reads at *
    rw [run, hstep, htail]
    rfl

/-! ## Labels, instruction words and branches -/

/-- The label, if the event is one. -/
def Event.label? : Event → Option Bytes
  | .label name => some name
  | _ => none

/-- The name and the value of an instruction word, if the event gives it one. -/
def Event.instruction? : Event → Option (Bytes × Bytes)
  | .instruction name value => some (name, value)
  | _ => none

/-- The labels that are defined. -/
def labels (es : List Event) : List Bytes := es.filterMap Event.label?

/-- The instruction words that are given values. -/
def instructions (es : List Event) : List (Bytes × Bytes) := es.filterMap Event.instruction?

/-- The macros in force, the latest first. -/
abbrev Macros := List (Bytes × List Token)

/-- The word that stands for `w` where the macros are in force. -/
def expand (ms : Macros) (w : Bytes) : Bytes :=
  match ms.lookup w with
  | some [.word v] => v
  | _ => w

/-- The macros in force after an event. -/
def Macros.step (ms : Macros) : Event → Macros
  | .define name value => (name, value) :: ms
  | .undefine name => ms.filter (·.1 != name)
  | _ => ms

/-- Where the branches go, each by the macros in force where it stands. -/
def gotos : Macros → List Event → List Bytes
  | _, [] => []
  | ms, .goto w :: es => expand ms w :: gotos ms es
  | ms, e :: es => gotos (ms.step e) es

theorem labels_append (es fs : List Event) : labels (es ++ fs) = labels es ++ labels fs :=
  List.filterMap_append

theorem instructions_append (es fs : List Event) :
    instructions (es ++ fs) = instructions es ++ instructions fs :=
  List.filterMap_append

/-- Parts with one label each have these labels together. -/
theorem labels_flatMap {α : Type} {xs : List α} {es : α → List Event} {name : α → Bytes}
    (h : ∀ x ∈ xs, labels (es x) = [name x]) : labels (xs.flatMap es) = xs.map name := by
  induction xs with
  | nil => rfl
  | cons x xs ih =>
    rw [List.flatMap_cons, labels_append, h x List.mem_cons_self,
      ih fun y hy => h y (List.mem_cons_of_mem x hy), List.map_cons, List.singleton_append]

theorem labels_goto (ws : List Bytes) : labels (ws.map .goto) = [] := by
  induction ws with
  | nil => rfl
  | cons w ws ih => exact ih

theorem instructions_goto (ws : List Bytes) : instructions (ws.map .goto) = [] := by
  induction ws with
  | nil => rfl
  | cons w ws ih => exact ih

/-- After a part, the macros are those that it leaves in force. -/
theorem gotos_append (ms : Macros) (es fs : List Event) :
    gotos ms (es ++ fs) = gotos ms es ++ gotos (es.foldl Macros.step ms) fs := by
  induction es generalizing ms with
  | nil => rfl
  | cons e es ih => cases e <;> simp [gotos, ih, Macros.step]

/-- A macro in force was in force before or has been defined since. -/
theorem mem_foldl_step {ms : Macros} {es : List Event} {m : Bytes × List Token}
    (h : m ∈ es.foldl Macros.step ms) : m ∈ ms ∨ Event.define m.1 m.2 ∈ es := by
  induction es generalizing ms with
  | nil => exact Or.inl h
  | cons e es ih =>
    rcases ih h with h | h
    · cases e with
      | define name value =>
        rcases List.mem_cons.mp h with rfl | h
        · exact Or.inr List.mem_cons_self
        · exact Or.inl h
      | undefine name => exact Or.inl (List.mem_filter.mp h).1
      | label | goto | instruction => exact Or.inl h
    · exact Or.inr (List.mem_cons_of_mem e h)

theorem gotos_goto (ms : Macros) (ws : List Bytes) :
    gotos ms (ws.map .goto) = ws.map (expand ms) := by
  induction ws with
  | nil => rfl
  | cons w ws ih => rw [List.map_cons, gotos, ih, List.map_cons]

/-- The latest definition of a macro counts. -/
theorem expand_define (ms : Macros) (name v : Bytes) :
    expand ((name, [.word v]) :: ms) name = v := by
  rw [expand, List.lookup_cons_self]

/-- A definition says nothing about other words. -/
theorem expand_define_of_ne {name w : Bytes} (h : w ≠ name) (ms : Macros) (value : List Token) :
    expand ((name, value) :: ms) w = expand ms w := by
  have hlookup : ((name, value) :: ms).lookup w = ms.lookup w := by
    rw [List.lookup_cons, beq_false_of_ne h]
  rw [expand, hlookup, expand]

/-- A word that no macro is called stands for itself. -/
theorem expand_of_forall_ne {ms : Macros} {w : Bytes} (h : ∀ m ∈ ms, m.1 ≠ w) :
    expand ms w = w := by
  have hlookup : ms.lookup w = none := by
    rw [List.lookup_eq_none_iff]
    intro m hm
    exact bne_iff_ne.mpr (h m hm).symm
  rw [expand, hlookup]

end LuaToC.CText
