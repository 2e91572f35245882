/-
# Bluecross.Clipboard — the clipboard manager of one node.

`last_content` is shared between `set`, which applies a value received from a peer, and the watcher,
which reports local changes; a value that `set` recorded is recognised and not reported. The clipboard
of the compositor, which `wl-copy` writes, is a field beside it.
-/
import Bluecross.Json

namespace Bluecross

/-- The last value seen, and the clipboard that is looked at. -/
structure ClipboardManager where
  lastContent : String
  /-- What the compositor's clipboard holds. -/
  system : String
  deriving DecidableEq, Repr

namespace ClipboardManager

/-- Nothing was seen, and nothing is on the clipboard. -/
def new : ClipboardManager where
  lastContent := ""
  system := ""

/-- The lock section of `set`: the value is recorded before it is written. -/
def record (c : ClipboardManager) (content : String) : ClipboardManager :=
  { c with lastContent := content }

/-- `wl-copy` with `content` on its standard input. -/
def wlCopy (c : ClipboardManager) (content : String) : ClipboardManager :=
  { c with system := content }

/-- Set the clipboard to a value received from a peer. -/
def set (c : ClipboardManager) (content : String) : ClipboardManager :=
  if content.isEmpty then c else (c.record content).wlCopy content

/-- Whether a value read from the clipboard is new; if it is, it is recorded. -/
def takeIfChanged (c : ClipboardManager) (content : String) : Bool × ClipboardManager :=
  if content.isEmpty then (false, c)
  else if c.lastContent = content then (false, c)
  else (true, c.record content)

theorem set_of_ne_empty (c : ClipboardManager) {content : String} (h : content ≠ "") :
    c.set content = ⟨content, content⟩ := by
  unfold set
  rw [if_neg fun hempty => h (String.isEmpty_iff.mp hempty)]
  rfl

end ClipboardManager

end Bluecross
