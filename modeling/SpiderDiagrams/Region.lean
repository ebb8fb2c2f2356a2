import SpiderDiagrams.Zone

/-!
# Regions

A region is a set of zones, which are listed, compared and printed in ascending order.
-/
namespace SpiderDiagrams

abbrev Region := SortedSet Zone

namespace Region

def contours (r : Region) : SortedSet String := .ofList (r.toList.flatMap fun z => z.contours.toList)

def text (r : Region) : String := "[" ++ ", ".intercalate (r.toList.map Zone.text) ++ "]"

def split (r : Region) (c : String) : Region := .ofList (r.toList.flatMap fun z => z.split c)

/-- The same part of the plane, told by zones that mention all the given contours. -/
def expressedOver (r : Region) (contours : List String) : Region := contours.foldl split r

/-- All zones that some contours divide the plane into. -/
def allZones (contours : List String) : Region :=
  expressedOver (.ofList [.plane]) contours

def insideAny (r : Region) (contours : List String) : Region :=
  r.filter fun z => contours.any z.isInside

def insideNone (r : Region) (contours : List String) : Region :=
  r.filter fun z => !contours.any z.isInside

/--
Adds the interior of a contour to a region and tells the result over that contour. An empty region
becomes the two sides of the contour.
-/
def extendedBy (r : Region) (c : String) : Region :=
  if r.isEmpty then .ofList [.insideOf [c], .outsideOf [c]]
  else
    let interior := expressedOver (.ofList [.insideOf [c]]) ((contours r).erase c).toList
    (expressedOver r [c]).union interior

end Region

end SpiderDiagrams
