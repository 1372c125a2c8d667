import AboveFold.Prune.Basic
import AboveFold.Text.Utf8
import AboveFold.Text.WhiteSpace

/-!
# Embedded data

A `data:` url in base64 carries a file inside the stylesheet. Large ones do not belong into what is
sent for the first view: the declaration that holds one goes as a whole.
-/

namespace AboveFold.Prune
open Text

/-- The size in bytes up to which embedded data may stay. -/
def maxEmbed : Nat := 1000

/-- Whether a url is base64 data and longer than `limit` bytes. -/
def isLargeEmbed (limit : Nat) (url : String) : Bool :=
  let cs := trim url.toList
  limit < byteSize cs && (cs.take 5).map Char.toLower = "data:".toList
    && hasInfix ";base64".toList ((splitOnce ',' cs).1.map Char.toLower)

end AboveFold.Prune

namespace AboveFold

/-- Whether a branch holds a url of large embedded data. -/
def Branch.hasLargeEmbed (limit : Nat) (b : Branch) : Bool :=
  b.preorder.any fun c =>
    match c.kind with
    | .url url _ => Prune.isLargeEmbed limit url
    | _ => false

/-- Removes the declarations that hold embedded data of more than `limit` bytes. -/
def Stylesheet.pruneEmbeds (s : Stylesheet) (limit : Nat) : Nat × Stylesheet :=
  s.pruneBy (Prune.declarations (Branch.hasLargeEmbed limit))

end AboveFold
