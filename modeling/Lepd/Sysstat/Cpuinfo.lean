import Lepd.CJson.Printer
import Lepd.Cgtop.Blkio
import Lepd.Foundation.Search

/-!
# The name of the CPU

`figureout_cpu` on the content of `/proc/cpuinfo`. It has no answer where
`strstr` would search from a null pointer.
-/

namespace Lepd
namespace Sysstat

open Foundation
open Ps (Text bytes byte)
open CJson (cString decimalText)
open Cgtop (Stream fgets takeLine takeLine_short newline)

def colon : UInt8 := 58

def blank : UInt8 := 32

def lineSize : Nat := 8192

def searchFrom (s : Option Text) (pattern : Text) : Option (Option Text) :=
  s.map (strstr pattern)

def nameIn (line : Text) : Option (Option Text) := do
  let s := strstr [colon] line
  let n <- searchFrom s (bytes "ARM")
  let n <- (if n.isNone then searchFrom s (bytes "AArch64") else some n)
  let n <- (if n.isNone then searchFrom s (bytes "Intel") else some n)
  let n <- (if n.isNone then searchFrom s (bytes "AMD") else some n)
  if n.isSome then some (s.map (fun s => s.drop 2)) else some none

/-- The loop over the lines, `fuel` of them at most. -/
def nameFrom : Nat -> Stream -> Option (Option Text)
  | 0, _ => none
  | fuel + 1, f =>
      match fgets lineSize f with
      | none => some none
      | some (line, f) => do
          let name <- nameIn (cString line)
          if name.isSome then some name else nameFrom fuel f

/--
`figureout_cpu` behind what is already written, for the content of the file if
it can be opened.
-/
def figureoutCpu (written : Text) (cpuinfo : Option Text) : Option Text :=
  match cpuinfo with
  | none => some written
  | some content => do
      let name <- nameFrom (content.length + 1) (.opened content .eof)
      some (written ++ bytes "cpu_name: " ++ name.getD (bytes "unknown"))

def cpuinfoMain (cpuNr : Int) (cpuinfo : Option Text) : Option Text :=
  figureoutCpu (bytes "cpunr: " ++ decimalText cpuNr ++ bytes "\n") cpuinfo

/-!
# Lines and pieces
-/

def joinHead (c : UInt8) : List Text -> List Text
  | [] => [[c]]
  | line :: lines => (c :: line) :: lines

/-- The lines of the file, each with its newline. -/
def fileLines : Text -> List Text
  | [] => []
  | c :: content =>
      if c = newline then [c] :: fileLines content
      else joinHead c (fileLines content)

/-- The lines cut into pieces of 8191 bytes, the first of them into one of
`room` bytes. -/
def cutLines : Nat -> Text -> List Text
  | _, [] => []
  | room, c :: content =>
      if c = newline ∨ room = 1 then [c] :: cutLines (lineSize - 1) content
      else joinHead c (cutLines (room - 1) content)

/-- The pieces of 8191 bytes that the lines fall into, each up to its first NUL. -/
def pieces (content : Text) : List Text :=
  (cutLines (lineSize - 1) content).map cString

theorem cutLines_eq {content : Text} :
    forall {room : Nat}, 0 < room -> content ≠ [] ->
      cutLines room content =
        (takeLine room content).1 :: cutLines (lineSize - 1)
          (takeLine room content).2 := by
  induction content with
  | nil =>
      intro room _ hne
      exact absurd rfl hne
  | cons c content ih =>
      intro room hroom _
      rcases Nat.exists_eq_add_one.mpr hroom with ⟨n, rfl⟩
      rw [cutLines, takeLine]
      by_cases hc : c = newline
      · rw [if_pos (Or.inl hc), if_pos hc]
      · rw [if_neg hc]
        by_cases hn : n = 0
        · subst hn
          rw [if_pos (Or.inr rfl)]
          rfl
        · have hfull : ¬ (c = newline ∨ n + 1 = 1) := not_or.mpr ⟨hc, by omega⟩
          rw [if_neg hfull, Nat.add_sub_cancel]
          by_cases hcontent : content = []
          · subst hcontent
            cases n with
            | zero => exact absurd rfl hn
            | succ n => rfl
          · rw [ih (Nat.pos_of_ne_zero hn) hcontent]
            rfl

theorem fgets_piece {f : Stream} (hending : f.ending = .eof) (hrest : f.rest ≠ []) :
    exists f', fgets lineSize f = some ((takeLine (lineSize - 1) f.rest).1, f') ∧
      f'.rest = (takeLine (lineSize - 1) f.rest).2 ∧ f'.ending = .eof := by
  have hstop := Cgtop.takeLine_stop (lineSize - 1) f.rest
  have hcut := Cgtop.takeLine_append (lineSize - 1) f.rest
  unfold fgets
  generalize takeLine (lineSize - 1) f.rest = read at hstop hcut ⊢
  rcases read with ⟨line, rest⟩
  dsimp only at hstop hcut ⊢
  by_cases hwhole : line.getLast? = some newline ∨ line.length = lineSize - 1
  · rw [if_pos hwhole]
    exact ⟨_, rfl, rfl, hending⟩
  · rw [← or_assoc] at hstop
    have hend : rest = [] := hstop.resolve_left hwhole
    have hline : ¬ (line = [] ∨ f.ending = .error) := by
      rintro (hempty | herror)
      · rw [hempty, hend] at hcut
        exact hrest hcut.symm
      · rw [hending] at herror
        cases herror
    rw [if_neg hwhole, if_neg hline]
    exact ⟨_, rfl, hend.symm, hending⟩

theorem joinHead_flatten (c : UInt8) (lines : List Text) :
    (joinHead c lines).flatten = c :: lines.flatten := by
  cases lines with
  | nil => rfl
  | cons line lines => rfl

theorem fileLines_flatten (content : Text) :
    (fileLines content).flatten = content := by
  induction content with
  | nil =>
      rfl
  | cons c content ih =>
      rw [fileLines]
      split
      · rw [List.flatten_cons, ih]
        rfl
      · rw [joinHead_flatten, ih]

theorem fileLines_ne_nil {content line : Text} (h : line ∈ fileLines content) :
    line ≠ [] := by
  induction content generalizing line with
  | nil =>
      exact absurd h List.not_mem_nil
  | cons c content ih =>
      rw [fileLines] at h
      split at h
      · rcases List.mem_cons.mp h with rfl | hline
        · exact List.cons_ne_nil _ _
        · exact ih hline
      · cases hlines : fileLines content with
        | nil =>
            rw [hlines, joinHead, List.mem_singleton] at h
            rw [h]
            exact List.cons_ne_nil _ _
        | cons first lines =>
            rw [hlines, joinHead] at h
            rcases List.mem_cons.mp h with rfl | hline
            · exact List.cons_ne_nil _ _
            · exact ih (hlines ▸ List.mem_cons_of_mem first hline)

theorem cutLines_eq_fileLines {content : Text} :
    forall {room : Nat}, 0 < room ->
      (forall line, line ∈ (fileLines content).head? -> line.length ≤ room) ->
      (forall line, line ∈ fileLines content -> line.length < lineSize) ->
      cutLines room content = fileLines content := by
  induction content with
  | nil =>
      intro room _ _ _
      rfl
  | cons c content ih =>
      intro room hroom hhead hall
      rw [fileLines] at hhead hall ⊢
      rw [cutLines]
      by_cases hc : c = newline
      · rw [if_pos hc] at hhead hall ⊢
        rw [if_pos (Or.inl hc)]
        have hrest : forall line, line ∈ fileLines content ->
            line.length < lineSize :=
          fun line hline => hall line (List.mem_cons_of_mem _ hline)
        rw [ih (by decide) (fun line hline =>
          Nat.le_sub_one_of_lt (hrest line (List.mem_of_mem_head? hline))) hrest]
      · rw [if_neg hc] at hhead hall ⊢
        cases hlines : fileLines content with
        | nil =>
            have hcontent : content = [] := by
              rw [← fileLines_flatten content, hlines]
              rfl
            rw [hcontent]
            by_cases hfull : c = newline ∨ room = 1
            · rw [if_pos hfull]
              rfl
            · rw [if_neg hfull]
              rfl
        | cons line lines =>
            rw [hlines, joinHead] at hhead hall
            have hfirst : line.length + 1 ≤ room := hhead _ rfl
            have hline : line ≠ [] := by
              rintro rfl
              exact fileLines_ne_nil (hlines ▸ List.mem_cons_self) rfl
            have hpos := List.length_pos_iff.mpr hline
            have hfull : ¬ (c = newline ∨ room = 1) := not_or.mpr ⟨hc, by omega⟩
            rw [if_neg hfull, ← hlines]
            congr 1
            refine ih (by omega) ?_ ?_
            · intro l hl
              rw [hlines] at hl
              cases hl
              omega
            · intro l hl
              rw [hlines] at hl
              rcases List.mem_cons.mp hl with rfl | hl
              · exact Nat.lt_of_succ_lt (hall _ List.mem_cons_self)
              · exact hall l (List.mem_cons_of_mem _ hl)

theorem pieces_eq_fileLines {content : Text}
    (hfits : forall line, line ∈ fileLines content -> line.length < lineSize)
    (hnull : (0 : UInt8) ∉ content) : pieces content = fileLines content := by
  unfold pieces
  rw [cutLines_eq_fileLines (by decide) (fun line hline =>
    Nat.le_sub_one_of_lt (hfits line (List.mem_of_mem_head? hline))) hfits]
  refine (List.map_congr_left (fun line hline => ?_)).trans (List.map_id _)
  refine Cgtop.cString_of_plain (fun c hc heq => hnull ?_)
  rw [← fileLines_flatten content, ← heq]
  exact List.mem_flatten.mpr ⟨line, hline, hc⟩

def vendors : List Text :=
  [bytes "ARM", bytes "AArch64", bytes "Intel", bytes "AMD"]

def fromColon (line : Text) : Text :=
  line.dropWhile (fun c => c ≠ colon)

def Mentions (line : Text) : Prop :=
  exists vendor, vendor ∈ vendors ∧ vendor <:+: fromColon line

instance (line : Text) : Decidable (Mentions line) :=
  inferInstanceAs (Decidable (exists vendor, vendor ∈ vendors ∧
    vendor <:+: fromColon line))

def nameAmong : List Text -> Option (Option Text)
  | [] => some none
  | line :: lines => do
      let name <- nameIn line
      if name.isSome then some name else nameAmong lines

theorem nameFrom_eq {fuel : Nat} :
    forall {f : Stream}, f.ending = .eof -> f.rest.length < fuel ->
      nameFrom fuel f =
        nameAmong ((cutLines (lineSize - 1) f.rest).map cString) := by
  induction fuel with
  | zero =>
      intro f _ h
      cases h
  | succ fuel ih =>
      intro f hending h
      rw [nameFrom]
      by_cases hrest : f.rest = []
      · have hnone : fgets lineSize f = none := by
          unfold fgets
          rw [hrest]
          rfl
        rw [hnone, hrest]
        rfl
      · rcases fgets_piece hending hrest with ⟨f', hread, hrest', hending'⟩
        have hshort := Cgtop.fgets_rest hread (by decide)
        have hlength := congrArg List.length hshort.left
        have hpos := List.length_pos_iff.mpr hshort.right
        rw [List.length_append] at hlength
        have hmore := ih hending' (show f'.rest.length < fuel by omega)
        rw [hread, cutLines_eq (by decide) hrest, List.map_cons, nameAmong,
          ← hrest', ← hmore]

/-!
# One line
-/

theorem nameIn_of_not_mem {line : Text} (h : colon ∉ line) :
    nameIn line = none := by
  have hnone : strstr [colon] line = none := by rw [strstr_singleton, if_neg h]
  unfold nameIn
  rw [hnone]
  rfl

theorem nameIn_of_mem {line : Text} (h : colon ∈ line) :
    nameIn line = some (if Mentions line then some ((fromColon line).drop 2)
      else none) := by
  have hsome : strstr [colon] line = some (fromColon line) := by
    rw [strstr_singleton, if_pos h]
    rfl
  have hmentions : Mentions line <->
      (strstr (bytes "ARM") (fromColon line)).isSome = true ∨
      (strstr (bytes "AArch64") (fromColon line)).isSome = true ∨
      (strstr (bytes "Intel") (fromColon line)).isSome = true ∨
      (strstr (bytes "AMD") (fromColon line)).isSome = true := by
    simp only [strstr_isSome_iff, Mentions, vendors, List.mem_cons,
      List.not_mem_nil, or_false, exists_eq_or_imp,
      exists_eq_left]
  unfold nameIn
  rw [hsome]
  simp only [searchFrom, Option.map_some, Option.bind_eq_bind, Option.bind_some]
  generalize strstr (bytes "ARM") (fromColon line) = arm at hmentions ⊢
  generalize strstr (bytes "AArch64") (fromColon line) = aarch64 at hmentions ⊢
  generalize strstr (bytes "Intel") (fromColon line) = intel at hmentions ⊢
  generalize strstr (bytes "AMD") (fromColon line) = amd at hmentions ⊢
  cases arm with
  | some n => simp [hmentions]
  | none =>
      cases aarch64 with
      | some n => simp [hmentions]
      | none =>
          cases intel with
          | some n => simp [hmentions]
          | none =>
              cases amd with
              | some n => simp [hmentions]
              | none => simp [hmentions]

/-!
# The first line that mentions a vendor
-/

def matching (lines : List Text) : Option Text :=
  lines.find? (fun line => Mentions line)

/-- What stands behind the first colon of the line and the byte that follows it. -/
def textBehind (line : Text) : Text :=
  (fromColon line).drop 2

/--
The loop has come to its end without searching from a null pointer, and what is
written behind `front` is the text behind the colon and the blank of the first
line that mentions a vendor, or that there is none.
-/
def Named (front : Text) (lines : List Text) (written : Option Text) : Prop :=
  match matching lines with
  | some line => exists text, fromColon line = colon :: blank :: text ∧
      written = some (front ++ bytes "cpu_name: " ++ text)
  | none => written = some (front ++ bytes "cpu_name: " ++ bytes "unknown")

/--
There is a colon in each piece in front of the first that mentions a vendor, the
same text stands behind that piece's first colon and behind that of the first
line of the file that mentions one (or none does), and in that line a blank
follows the colon.
-/
structure Regular (content : Text) : Prop where
  colons : forall piece, piece ∈ (pieces content).takeWhile
    (fun piece => ¬ Mentions piece) ->
    colon ∈ piece
  whole : (matching (pieces content)).map textBehind =
    (matching (fileLines content)).map textBehind
  blank : forall line, matching (fileLines content) = some line ->
    (fromColon line)[1]? = some blank

/-- Where no line is cut, the condition is about the lines of the file alone. -/
theorem regular_iff_of_fits {content : Text}
    (hfits : forall line, line ∈ fileLines content -> line.length < lineSize)
    (hnull : (0 : UInt8) ∉ content) :
    Regular content <->
      (forall line, line ∈ (fileLines content).takeWhile
        (fun line => ¬ Mentions line) ->
        colon ∈ line) ∧
      forall line, matching (fileLines content) = some line ->
        (fromColon line)[1]? = some blank := by
  have hpieces := pieces_eq_fileLines hfits hnull
  constructor
  · intro h
    exact ⟨hpieces ▸ h.colons, h.blank⟩
  · rintro ⟨hcolons, hblank⟩
    exact ⟨hpieces.symm ▸ hcolons, by rw [hpieces], hblank⟩

theorem colon_mem_of_mentions {line : Text} (h : Mentions line) : colon ∈ line := by
  rcases h with ⟨vendor, hvendor, hwithin⟩
  by_contra hnone
  have hempty : fromColon line = [] := by
    rw [fromColon, List.dropWhile_eq_nil_iff]
    intro c hc
    have hne : c ≠ colon := fun heq => hnone (heq ▸ hc)
    simpa using hne
  rw [hempty, List.infix_nil] at hwithin
  rw [hwithin] at hvendor
  exact absurd hvendor (by decide)

/-- The loop gets to its end if and only if the lines in front of the match have
colons. -/
theorem nameAmong_eq {lines : List Text} :
    nameAmong lines = if forall line,
      line ∈ lines.takeWhile (fun line => ¬ Mentions line) -> colon ∈ line then
      some ((matching lines).map textBehind) else none := by
  induction lines with
  | nil =>
      rfl
  | cons line lines ih =>
      rw [nameAmong]
      by_cases hmentions : Mentions line
      · have hmatch : matching (line :: lines) = some line :=
          List.find?_cons_of_pos (by simpa using hmentions)
        have hfront : (line :: lines).takeWhile (fun line => ¬ Mentions line) =
            [] :=
          List.takeWhile_cons_of_neg (by simpa using hmentions)
        rw [nameIn_of_mem (colon_mem_of_mentions hmentions), if_pos hmentions,
          hmatch, hfront,
          if_pos (fun line hline => nomatch hline)]
        rfl
      · have hmatch : matching (line :: lines) = matching lines :=
          List.find?_cons_of_neg (by simpa using hmentions)
        have hfront : (line :: lines).takeWhile (fun line => ¬ Mentions line) =
            line :: lines.takeWhile (fun line => ¬ Mentions line) :=
          List.takeWhile_cons_of_pos (by simpa using hmentions)
        rw [hmatch, hfront]
        by_cases hcolon : colon ∈ line
        · rw [nameIn_of_mem hcolon, if_neg hmentions]
          show nameAmong lines = _
          rw [ih]
          simp [hcolon]
        · rw [nameIn_of_not_mem hcolon,
            if_neg (fun h => hcolon (h line List.mem_cons_self))]
          rfl

theorem figureoutCpu_eq (front content : Text) :
    figureoutCpu front (some content) =
      if forall piece, piece ∈ (pieces content).takeWhile
        (fun piece => ¬ Mentions piece) ->
          colon ∈ piece then
        some (front ++ bytes "cpu_name: " ++
          ((matching (pieces content)).map textBehind).getD (bytes "unknown"))
      else none := by
  have hname : nameFrom (content.length + 1) (.opened content .eof) =
      nameAmong (pieces content) :=
    nameFrom_eq rfl (Nat.lt_succ_self _)
  unfold figureoutCpu
  dsimp only
  rw [hname, nameAmong_eq]
  split
  · rfl
  · rfl

theorem fromColon_cons {line : Text} (h : colon ∈ line) :
    exists rest, fromColon line = colon :: rest := by
  have hne : fromColon line ≠ [] := by
    intro hempty
    rw [fromColon, List.dropWhile_eq_nil_iff] at hempty
    exact absurd rfl (of_decide_eq_true (hempty colon h))
  cases hpart : fromColon line with
  | nil =>
      exact absurd hpart hne
  | cons c rest =>
      have hhead := List.head_dropWhile_not (fun c => decide (c ≠ colon)) hne
      have hc : (fromColon line).head hne = c := by simp [hpart]
      have heq : c = colon := by
        have hnot : decide (c ≠ colon) = false := hc ▸ hhead
        by_contra hother
        rw [decide_eq_true hother] at hnot
        cases hnot
      exact ⟨rest, by rw [heq]⟩

theorem matching_mentions {lines : List Text} {line : Text}
    (h : matching lines = some line) : Mentions line := by
  simpa using List.find?_some h

/-- A vendor begins with no colon, and nothing of it from its second byte on is
in "unknown". -/
theorem vendors_not_unknown : forall vendor, vendor ∈ vendors ->
    vendor.head? ≠ some colon ∧ ¬ vendor.tail <+: bytes "unknown" ∧
      ¬ vendor <:+: bytes "unknown" := by
  decide

theorem textBehind_ne_unknown {line : Text} (h : Mentions line) :
    textBehind line ≠ bytes "unknown" := by
  intro hunknown
  rcases fromColon_cons (colon_mem_of_mentions h) with ⟨rest, hrest⟩
  rcases h with ⟨vendor, hvendor, hwithin⟩
  rcases vendors_not_unknown vendor hvendor with ⟨hhead, htail, hunder⟩
  unfold textBehind at hunknown
  rw [hrest, List.drop_succ_cons] at hunknown
  rw [hrest, List.infix_cons_iff] at hwithin
  cases vendor with
  | nil => exact htail List.nil_prefix
  | cons v vendor =>
      rcases hwithin with hfirst | hwithin
      · rw [List.cons_prefix_cons] at hfirst
        exact hhead (congrArg some hfirst.left)
      · cases rest with
        | nil => exact absurd hunknown (by decide)
        | cons c rest =>
            rw [List.drop_one, List.tail_cons] at hunknown
            rw [List.infix_cons_iff, List.cons_prefix_cons, hunknown] at hwithin
            rcases hwithin with hsecond | hinner
            · exact htail hsecond.right
            · exact hunder hinner

/-- What is written for an optional text tells whether there was one, if it is
not "unknown". -/
theorem named_eq {text text' : Option Text} (h : text ≠ some (bytes "unknown"))
    (h' : text' ≠ some (bytes "unknown"))
    (heq : text.getD (bytes "unknown") = text'.getD (bytes "unknown")) :
    text = text' := by
  cases text with
  | none =>
      cases text' with
      | none => rfl
      | some t => exact absurd (congrArg some heq.symm) h'
  | some t =>
      cases text' with
      | none => exact absurd (congrArg some heq) h
      | some t' => exact congrArg some heq

theorem matching_text_ne_unknown (lines : List Text) :
    (matching lines).map textBehind ≠ some (bytes "unknown") := by
  intro h
  rcases Option.map_eq_some_iff.mp h with ⟨line, hmatch, htext⟩
  exact textBehind_ne_unknown (matching_mentions hmatch) htext

theorem named_iff (front : Text) (lines : List Text) (written : Option Text) :
    Named front lines written <->
      written = some (front ++ bytes "cpu_name: " ++
        ((matching lines).map textBehind).getD (bytes "unknown")) ∧
      forall line, matching lines = some line -> (fromColon line)[1]? =
        some blank := by
  unfold Named
  cases hmatch : matching lines with
  | none =>
      exact ⟨fun h => ⟨h, fun line hline =>
        absurd hline.symm (Option.some_ne_none line)⟩, And.left⟩
  | some line =>
      rcases fromColon_cons (colon_mem_of_mentions
        (matching_mentions hmatch)) with ⟨rest, hrest⟩
      constructor
      · rintro ⟨text, hpart, hwritten⟩
        have htext : textBehind line = text := by
          unfold textBehind
          rw [hpart]
          rfl
        refine ⟨by rw [hwritten, ← htext]; rfl, fun l hl => ?_⟩
        cases hl
        rw [hpart]
        rfl
      · rintro ⟨hwritten, hblank⟩
        have hsecond := hblank line rfl
        rw [hrest, List.getElem?_cons_succ] at hsecond
        cases rest with
        | nil =>
            cases hsecond
        | cons c text =>
            cases hsecond
            refine ⟨text, hrest, ?_⟩
            rw [hwritten, Option.map_some, Option.getD_some, textBehind, hrest]
            rfl

theorem figureoutCpu_named (front content : Text) :
    Named front (fileLines content) (figureoutCpu front (some content)) <->
      Regular content := by
  rw [named_iff, figureoutCpu_eq]
  constructor
  · rintro ⟨hwritten, hblank⟩
    by_cases hcolons : forall piece,
        piece ∈ (pieces content).takeWhile (fun piece => ¬ Mentions piece) ->
          colon ∈ piece
    · rw [if_pos hcolons, Option.some_inj] at hwritten
      have hsame := List.append_cancel_left hwritten
      exact ⟨hcolons,
        named_eq (matching_text_ne_unknown _) (matching_text_ne_unknown _)
          hsame, hblank⟩
    · rw [if_neg hcolons] at hwritten
      cases hwritten
  · intro h
    rw [if_pos h.colons, h.whole]
    exact ⟨rfl, h.blank⟩

theorem cpuinfoMain_named_iff (cpuNr : Int) (content : Text) :
    Named (bytes "cpunr: " ++ decimalText cpuNr ++ bytes "\n") (fileLines content)
      (cpuinfoMain cpuNr (some content)) <-> Regular content :=
  figureoutCpu_named _ content

end Sysstat
end Lepd
