import Mathlib.Algebra.GroupWithZero.Nat
import Mathlib.Data.List.Induction
import PromptTemplate.Proofs.Syntax.MapSpans
import PromptTemplate.Span

/-!
# Places in one text

A place is a position with the text ahead of it. Places that are reached by
reading on from one place are comparable, and what lies between two of them
is a stretch of the text.
-/

namespace PromptTemplate

namespace Position

theorem afterAll_offset (p : Position) (cs : List Char) :
    (p.afterAll cs).offset = p.offset + (cs.map Char.utf8Size).sum := by
  induction cs generalizing p with
  | nil => rfl
  | cons c cs ih =>
    have hafter : (p.after c).offset = p.offset + c.utf8Size := by
      unfold Position.after
      split <;> rfl
    rw [Position.afterAll_cons, ih, hafter, List.map_cons, List.sum_cons, Nat.add_assoc]

theorem afterAll_concat (p : Position) (cs : List Char) (c : Char) :
    p.afterAll (cs ++ [c]) = (p.afterAll cs).after c :=
  afterAll_append p cs [c]

/-- Lines are counted by line feeds. -/
theorem start_afterAll_line (cs : List Char) : (start.afterAll cs).line = 1 + cs.count '\n' := by
  induction cs using List.reverseRecOn with
  | nil => rfl
  | append_singleton cs c ih =>
    rw [afterAll_concat, after]
    split
    · rename_i hc
      simp [ih, hc, Nat.add_assoc]
    · rename_i hc
      simp [ih, hc]

/-- Columns are counted in characters from the last line feed. -/
theorem start_afterAll_column (cs : List Char) :
    (start.afterAll cs).column = 1 + (cs.reverse.takeWhile (· ≠ '\n')).length := by
  induction cs using List.reverseRecOn with
  | nil => rfl
  | append_singleton cs c ih =>
    rw [afterAll_concat, after]
    split
    · rename_i hc
      simp [hc]
    · rename_i hc
      simp only [ih, List.reverse_append, List.reverse_singleton, List.singleton_append]
      rw [List.takeWhile_cons_of_pos (by simpa using hc), List.length_cons, Nat.add_assoc]

end Position

/-- A position, and the text ahead of it. -/
structure Place where
  position : Position
  ahead : List Char

namespace Place

/-- The start of a text. -/
def startOf (cs : List Char) : Place := ⟨.start, cs⟩

/-- One comes from `a` to `b` by reading on. -/
def Leads (a b : Place) : Prop :=
  ∃ taken, a.ahead = taken ++ b.ahead ∧ b.position = a.position.afterAll taken

variable {a b c : Place}

theorem Leads.refl (a : Place) : a.Leads a := ⟨[], rfl, rfl⟩

theorem Leads.trans (hab : a.Leads b) (hbc : b.Leads c) : a.Leads c := by
  obtain ⟨first, ha, hb⟩ := hab
  obtain ⟨second, hb', hc⟩ := hbc
  exact ⟨first ++ second, by rw [ha, hb', List.append_assoc],
    by rw [hc, hb, Position.afterAll_append]⟩

theorem leads_drop (p : Position) (cs : List Char) (count : Nat) :
    Leads ⟨p, cs⟩ ⟨p.afterAll (cs.take count), cs.drop count⟩ :=
  ⟨cs.take count, (List.take_append_drop count cs).symm, rfl⟩

theorem leads_cons (p : Position) (c : Char) (cs : List Char) : Leads ⟨p, c :: cs⟩ ⟨p.after c, cs⟩ :=
  ⟨[c], rfl, rfl⟩

/-- Of two places on the way one comes first. -/
theorem Leads.total (hb : a.Leads b) (hc : a.Leads c) : b.Leads c ∨ c.Leads b := by
  obtain ⟨first, ha, hb⟩ := hb
  obtain ⟨second, ha', hc⟩ := hc
  rcases List.append_eq_append_iff.mp (ha ▸ ha') with ⟨more, rfl, hmore⟩ | ⟨more, rfl, hmore⟩
  · exact .inl ⟨more, hmore, by rw [hc, hb, Position.afterAll_append]⟩
  · exact .inr ⟨more, hmore, by rw [hc, hb, Position.afterAll_append]⟩

theorem Leads.offset_le (h : a.Leads b) : a.position.offset ≤ b.position.offset := by
  obtain ⟨taken, -, hb⟩ := h
  rw [hb, Position.afterAll_offset]
  exact Nat.le_add_right ..

theorem Leads.length_le (h : a.Leads b) : b.ahead.length ≤ a.ahead.length := by
  obtain ⟨taken, ha, -⟩ := h
  rw [ha, List.length_append]
  exact Nat.le_add_left ..

/-- One comes from `a` to `b` over at least one character. -/
structure Passes (a b : Place) : Prop where
  leads : a.Leads b
  shorter : b.ahead.length < a.ahead.length

theorem Leads.passes (hab : a.Leads b) (hbc : b.Passes c) : a.Passes c :=
  ⟨hab.trans hbc.leads, Nat.lt_of_lt_of_le hbc.shorter hab.length_le⟩

theorem Passes.trans (hab : a.Passes b) (hbc : b.Leads c) : a.Passes c :=
  ⟨hab.leads.trans hbc, Nat.lt_of_le_of_lt hbc.length_le hab.shorter⟩

theorem passes_drop (p : Position) {cs : List Char} {count : Nat} (hcs : cs ≠ [])
    (hcount : 0 < count) : Passes ⟨p, cs⟩ ⟨p.afterAll (cs.take count), cs.drop count⟩ where
  leads := leads_drop p cs count
  shorter := by
    have hpos := List.length_pos_iff.mpr hcs
    simp only [List.length_drop]
    omega

theorem Passes.offset_lt (h : a.Passes b) : a.position.offset < b.position.offset := by
  obtain ⟨⟨taken, ha, hb⟩, hshorter⟩ := h
  cases taken with
  | nil =>
    rw [ha] at hshorter
    exact absurd hshorter (Nat.lt_irrefl _)
  | cons c taken =>
    have hpos := c.utf8Size_pos
    simp only [hb, Position.afterAll_offset, List.map_cons, List.sum_cons]
    omega

end Place

section
variable {first last offset : Nat} {cs rest : List Char}

theorem bytesBetween_before (h : offset + (cs.map Char.utf8Size).sum ≤ first) :
    bytesBetween first last offset (cs ++ rest) =
      bytesBetween first last (offset + (cs.map Char.utf8Size).sum) rest := by
  induction cs generalizing offset with
  | nil => rfl
  | cons c cs ih =>
    have hpos := c.utf8Size_pos
    simp only [List.map_cons, List.sum_cons, ← Nat.add_assoc] at h ⊢
    rw [List.cons_append, bytesBetween, if_neg (by omega), ih h]

theorem bytesBetween_inside (hfirst : first ≤ offset)
    (hlast : offset + (cs.map Char.utf8Size).sum ≤ last) :
    bytesBetween first last offset (cs ++ rest) =
      cs ++ bytesBetween first last (offset + (cs.map Char.utf8Size).sum) rest := by
  induction cs generalizing offset with
  | nil => rfl
  | cons c cs ih =>
    simp only [List.map_cons, List.sum_cons, ← Nat.add_assoc] at hlast ⊢
    rw [List.cons_append, bytesBetween, if_pos (by omega), ih (by omega) hlast, List.cons_append]

theorem bytesBetween_after (h : last ≤ offset) : bytesBetween first last offset cs = [] := by
  induction cs generalizing offset with
  | nil => rfl
  | cons c cs ih =>
    have hpos := c.utf8Size_pos
    rw [bytesBetween, if_neg (by omega), ih (by omega)]

end

/-- The bytes between two places on the way are the characters between them. -/
theorem Place.bytesBetween_leads {a b c : Place} {cs : List Char} (hab : a.Leads b)
    (hahead : b.ahead = cs ++ c.ahead) (hc : c.position = b.position.afterAll cs) :
    bytesBetween b.position.offset c.position.offset a.position.offset a.ahead = cs := by
  obtain ⟨behind, ha, hb⟩ := hab
  have hfirst := congrArg Position.offset hb
  have hlast := congrArg Position.offset hc
  rw [Position.afterAll_offset] at hfirst hlast
  rw [ha, bytesBetween_before (Nat.le_of_eq hfirst.symm), ← hfirst, hahead,
    bytesBetween_inside (Nat.le_refl _) (Nat.le_of_eq hlast.symm), ← hlast,
    bytesBetween_after (Nat.le_refl _), List.append_nil]

namespace Span

/-- The span lies between two places that one comes to from `a`. -/
def From (a : Place) (span : Span) : Prop :=
  ∃ b c : Place, a.Leads b ∧ b.Leads c ∧ span = .between b.position c.position

variable {a b : Place} {first last : Span}

theorem From.mono (hab : a.Leads b) (h : last.From b) : last.From a := by
  obtain ⟨c, d, hc, hd, hlast⟩ := h
  exact ⟨c, d, hab.trans hc, hd, hlast⟩

theorem From.empty (hab : a.Leads b) : (Span.empty b.position).From a :=
  ⟨b, b, hab, .refl b, rfl⟩

/-- The end of a join is the end of one of its parts. -/
theorem From.join (hfirst : first.From a) (hlast : last.From a) : (first.join last).From a := by
  obtain ⟨b, c, hb, hc, rfl⟩ := hfirst
  obtain ⟨d, e, hd, he, rfl⟩ := hlast
  rcases (hb.trans hc).total (hd.trans he) with hce | hec
  · exact ⟨b, e, hb, hc.trans hce, by simp [Span.join, between, hce.offset_le]⟩
  · exact ⟨b, c, hb, hc, by simp [Span.join, between, hec.offset_le]⟩

/-- A stretch of a source text from one character boundary to another, with the line and the column
of its start. -/
structure Within (source : String) (span : Span) : Prop where
  ordered : span.start ≤ span.stop
  inside : span.stop ≤ source.utf8ByteSize
  startsAtChar : (String.Pos.Raw.mk span.start).IsValid source
  stopsAtChar : (String.Pos.Raw.mk span.stop).IsValid source
  numbered : ∃ behind ahead : String, source = behind ++ ahead ∧
    span.start = behind.utf8ByteSize ∧ span.line = 1 + behind.toList.count '\n' ∧
    span.column = 1 + (behind.toList.reverse.takeWhile (· ≠ '\n')).length

theorem utf8ByteSize_ofList (cs : List Char) :
    (String.ofList cs).utf8ByteSize = (cs.map Char.utf8Size).sum := by
  induction cs with
  | nil => rfl
  | cons c cs ih =>
    rw [String.ofList_cons]
    simp [String.utf8ByteSize_append, ih]

/-- A place in a source is at the character boundary that its position tells. -/
theorem startOf_leads {source : String} (h : (Place.startOf source.toList).Leads a) :
    ∃ ahead : String, ∃ behind : List Char, source = String.ofList behind ++ ahead ∧
      a.position = Position.start.afterAll behind ∧
      a.position.offset = (String.ofList behind).utf8ByteSize := by
  obtain ⟨taken, hsource, ha⟩ := h
  refine ⟨String.ofList a.ahead, taken, ?_, ha, ?_⟩
  · rw [← String.ofList_append]
    exact String.ofList_toList.symm.trans (congrArg String.ofList hsource)
  · rw [ha, Position.afterAll_offset, utf8ByteSize_ofList]
    exact Nat.zero_add _

theorem startOf_leads_isValid {source : String} (h : (Place.startOf source.toList).Leads a) :
    (String.Pos.Raw.mk a.position.offset).IsValid source := by
  obtain ⟨ahead, behind, hsource, -, hoffset⟩ := startOf_leads h
  exact String.Pos.Raw.isValid_iff_exists_append.mpr
    ⟨String.ofList behind, ahead, hsource, String.Pos.Raw.ext hoffset⟩

theorem From.within {source : String} {span : Span}
    (h : span.From (Place.startOf source.toList)) : span.Within source := by
  obtain ⟨b, c, hb, hc, rfl⟩ := h
  obtain ⟨ahead, behind, hsource, hposition, hoffset⟩ := startOf_leads hb
  refine ⟨hc.offset_le, (startOf_leads_isValid (hb.trans hc)).le_rawEndPos,
    startOf_leads_isValid hb, startOf_leads_isValid (hb.trans hc),
    String.ofList behind, ahead, hsource, hoffset, ?_, ?_⟩
  · simp [between, hposition, Position.start_afterAll_line]
  · simp [between, hposition, Position.start_afterAll_column]

end Span
/-! ## The same text somewhere else

What is done with positions and spans is the same for a text that stands
behind other lines: it has other offsets and line numbers, but the same
columns and the same characters (`Relocation.behind`). -/

/-- Where the positions and the spans of a text go when it stands elsewhere. -/
structure Relocation where
  position : Position → Position
  span : Span → Span
  after : ∀ p c, position (p.after c) = (position p).after c
  between : ∀ first last, span (.between first last) = .between (position first) (position last)
  join : ∀ first last, span (first.join last) = (span first).join (span last)

namespace Relocation

/-- Behind so many bytes and lines. -/
def down (bytes lines : Nat) : Relocation where
  position p := ⟨p.offset + bytes, p.line + lines, p.column⟩
  span s := ⟨s.start + bytes, s.stop + bytes, s.line + lines, s.column⟩
  after p c := by
    unfold Position.after
    split <;> simp only [Nat.add_right_comm]
  between _ _ := rfl
  join first last := by
    simp only [Span.join, Span.mk.injEq, and_true, true_and]
    exact (Nat.add_max_add_right ..).symm

/-- Behind a text that ends with its last line. -/
def behind (before : List Char) : Relocation :=
  down (before.map Char.utf8Size).sum (before.count '\n')

/-- The text starts where the one before it ends. -/
theorem behind_start {before : List Char} (h : before.getLast? = some '\n') :
    (behind before).position .start = Position.start.afterAll before := by
  obtain ⟨earlier, rfl⟩ := List.getLast?_eq_some_iff.1 h
  have hoffset := Position.afterAll_offset .start (earlier ++ ['\n'])
  have hline := Position.start_afterAll_line (earlier ++ ['\n'])
  have hcolumn := Position.start_afterAll_column (earlier ++ ['\n'])
  rw [List.reverse_append, List.reverse_singleton, List.singleton_append,
    List.takeWhile_cons_of_neg (by simp)] at hcolumn
  generalize Position.start.afterAll (earlier ++ ['\n']) = p at *
  obtain ⟨offset, line, column⟩ := p
  dsimp only at hoffset hline hcolumn
  rw [hoffset, hline, hcolumn]
  rfl

theorem bytesBetween_down (first last bytes offset : Nat) (cs : List Char) :
    bytesBetween (first + bytes) (last + bytes) (offset + bytes) cs =
      bytesBetween first last offset cs := by
  induction cs generalizing offset with
  | nil => rfl
  | cons c cs ih =>
    rw [bytesBetween, bytesBetween, Nat.add_right_comm, ih]
    simp only [Nat.add_le_add_iff_right]

/-- A span has the same text there. -/
theorem textOf_behind (before rest : String) (span : Span) :
    ((behind before.toList).span span).textOf (before ++ rest) = span.textOf rest := by
  have hbefore : 0 + (before.toList.map Char.utf8Size).sum ≤
      ((behind before.toList).span span).start :=
    Nat.add_le_add_right (Nat.zero_le _) _
  rw [Span.textOf, String.toList_append, bytesBetween_before hbefore]
  exact congrArg String.ofList (bytesBetween_down ..)

end Relocation

end PromptTemplate
