import RegionOutline.Scan.State
import RegionOutline.Text.Lines

/-! # Scanning

The outline of a whole text, and scans that can be stopped between lines. A
stopped scan gives nothing. -/

namespace RegionOutline

namespace Scanner

/-- The entries of a list of lines. -/
def entries : Scanner → List (List Char) → List Entry
  | _, [] => []
  | scanner, line :: rest =>
      match scanner.feed line with
      | (next, none) => next.entries rest
      | (next, some entry) => entry :: next.entries rest

/-- The scanner after a list of lines. -/
def feedAll (scanner : Scanner) (lines : List (List Char)) : Scanner :=
  lines.foldl (fun scanner line => (scanner.feed line).1) scanner

/-- Scan on while a stateful test agrees. The test is asked with the number of
lines read, before each line and once at the end. -/
def entriesWhile {σ : Type} (ask : Nat → σ → Bool × σ) :
    Scanner → List (List Char) → σ → Option (List Entry) × σ
  | scanner, [], memory =>
      match ask scanner.line memory with
      | (true, memory) => (some [], memory)
      | (false, memory) => (none, memory)
  | scanner, line :: rest, memory =>
      match ask scanner.line memory with
      | (false, memory) => (none, memory)
      | (true, memory) =>
          match scanner.feed line with
          | (next, made) =>
              match entriesWhile ask next rest memory with
              | (none, memory) => (none, memory)
              | (some entries, memory) => (some (made.toList ++ entries), memory)

end Scanner

/-- The outline of a text. -/
def scan (text : String) : List Entry :=
  ({} : Scanner).entries (Text.sourceLines text.toList)

/-- The outline of a text, unless the test stops the scan. -/
def scanWhile {σ : Type} (ask : Nat → σ → Bool × σ) (text : String) (memory : σ) :
    Option (List Entry) × σ :=
  ({} : Scanner).entriesWhile ask (Text.sourceLines text.toList) memory

/-- The outline of a text, given up as soon as the work is cancelled. The flag may
change between two looks at it, so it is given for each look: one before the scan
and one for each question of the scan. -/
def scanUnless (cancelled : Nat → Bool) (text : String) : Option (List Entry) :=
  if cancelled 0 then none
  else (scanWhile (fun count _ => (!cancelled (count + 1), ())) text ()).1

end RegionOutline
