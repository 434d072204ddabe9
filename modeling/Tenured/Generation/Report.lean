import Tenured.Generation.Basic
import Tenured.Text.Column
import Tenured.Text.Literal

/-!
# Reports

What a generation says about itself: a summary of two lines, its parts in short, and the figures
that it publishes.
-/

namespace Tenured.Generation

/-- The summary: the name in a column, the sizes and the bounds, and then the object space. -/
def summary (g : Generation) : Except Fault String := do
  let capacity := Text.kilobytes (← g.capacity)
  let used := Text.kilobytes (← g.used)
  let (low, high, limit) :=
    (Text.hex g.reserved.start, Text.hex g.objects.stop, Text.hex g.reserved.stop)
  let objects ← g.objects.summary
  return " " ++ Text.padRight 15 g.name ++
    s!" total {capacity}K, used {used}K [{low}, {high}, {limit})\n  object {objects}\n"

/-- Writes the summary to the journal, line by line, and reports it. -/
def reportSummary : Action String := do
  let g ← get
  let text ← g.summary
  (Text.lines text).forM (write .info)
  let capacity ← g.capacity
  let used ← g.used
  emit (.summary g.name (Text.kilobytes capacity) (Text.kilobytes used) g.reserved.start
    g.objects.stop g.reserved.stop)
  return text

/-- The name, the bounds and the top. -/
def describe (g : Generation) : Except Fault String := do
  let space ← g.objects.extent
  return "OldGen \x7b name: " ++ Text.literal g.name ++ ", reserved: " ++ g.reserved.describe ++
    ", space: " ++ space.describe ++ ", top: " ++ Text.hex g.objects.top ++ " \x7d"

/-- Publishes the capacity and the usage, if figures are kept. -/
def publishUsage : Action Unit := do
  let g ← get
  if g.config.keepFigures then
    let capacity ← g.capacity
    let used ← g.used
    set { g with
      spaceFigures := g.spaceFigures.update capacity used
      figures := g.figures.update capacity }

end Tenured.Generation
