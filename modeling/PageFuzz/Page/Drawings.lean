/-!
# Rules for vector drawings
-/

namespace PageFuzz.Page

def drawings : List (String × List String) := [
  ("svg_content", [
    "svgdesc_tag svgcircle_tag svgellipse_tag svgline_tag svgpolygon_tag svgpolyline_tag " ++
      "svgrect_tag",
    "svgdesc_tag svgcircle_tag svgpolygon_tag svgellipse_tag", "svgdesc_tag svgline_tag",
    "svgdesc_tag svgrect_tag", "svgpolygon_tag svgellipse_tag"]),
  ("svg_tag", [
    "<svg baseProfile=\"full\" contentScriptType=\"application/ecmascript\" " ++
      "focusable=\"true\" height=\"500\" timelineBegin=\"onStart\" version=\"1.0\" " ++
      "viewBox=\"0 50 1500 1000\" width=\"500\" zoomAndPan=\"magnify\"> svg_content </svg>",
    "<svg baseProfile=\"basic\" contentScriptType=\"application/ecmascript\" " ++
      "focusable=\"false\" height=\"900\" timelineBegin=\"onLoad\" version=\"1.1\" " ++
      "viewBox=\"50 0 1400 1000\" width=\"900\" zoomAndPan=\"disable\"> svg_content </svg>",
    "<svg baseProfile=\"tiny\" contentScriptType=\"application/ecmascript\" " ++
      "focusable=\"auto\" height=\"500\" timelineBegin=\"onStart\" version=\"1.2\" " ++
      "viewBox=\"0 90 1500 1000\" width=\"500\" zoomAndPan=\"magnify\"> svg_content </svg>"]),
  ("svganimatetransform_tag", [
    "<animateTransform attributeName=\"transform\" attributeType=\"XML\" type=\"rotate\" " ++
      "from=\"0\" to=\"360\" begin=\"0s\" dur=\"1s\" " ++
      "repeatCount=\"indefinite\"></animateTransform>"]),
  ("svgcircle_tag", [
    "<circle cx=\"125\" cy=\"125\" r=\"75\" fill=\"orange\"> </circle>",
    "<circle cx=\"125\" cy=\"125\" r=\"75\" fill=\"yellow\"> svganimatetransform_tag </circle>"]),
  ("svgdesc_tag", ["<desc> SVG Test </desc>"]),
  ("svgellipse_tag", [
    "<ellipse transform=\"translate(900 200) rotate(-30)\" rx=\"250\" ry=\"100\" " ++
      "fill=\"none\" stroke=\"blue\" stroke-width=\"20\"> </ellipse>",
    "<ellipse rx=\"250\" ry=\"100\" fill=\"red\"> </ellipse>",
    "<ellipse rx=\"250\" ry=\"100\" fill=\"yellow\"> svganimatetransform_tag </ellipse>"]),
  ("svgline_tag", [
    "<line x1=\"50\" y1=\"50\" x2=\"200\" y2=\"200\" stroke=\"blue\" stroke-width=\"40\"> " ++
      "</line>",
    "<line x1=\"50\" y1=\"50\" x2=\"400\" y2=\"400\" stroke=\"red\" stroke-width=\"8\"> " ++
      "svganimatetransform_tag </line>"]),
  ("svgpolygon_tag", [
    "<polygon fill=\"red\" stroke=\"blue\" stroke-width=\"10\" points=\"350,75  379,161 " ++
      "469,161 397,215 423,301 350,250 277,301 303,215 231,161 321,161\" />",
    "<polygon fill=\"lime\" stroke=\"blue\" stroke-width=\"10\" points=\"850,75 958,137.5 " ++
      "958,262.5 850,325 742,262.6 742,137.5\" />",
    "<polygon fill=\"red\" stroke=\"blue\" stroke-width=\"10\" points=\"350,75  379,161 " ++
      "469,161 397,215 423,301 350,250 277,301 303,215 231,161 321,161\"> " ++
      "svganimatetransform_tag </polygon>",
    "<polygon fill=\"lime\" stroke=\"red\" stroke-width=\"10\" points=\"850,75 958,137.5 " ++
      "958,262.5 850,325 742,262.6 742,137.5\"> svganimatetransform_tag </polygon>"]),
  ("svgpolyline_tag", [
    "<polyline points=\"50,150 50,200 200,200 200,100\" stroke=\"red\" stroke-width=\"4\" " ++
      "fill=\"none\"> </polyline>",
    "<polyline points=\"50,150 50,200 200,200 200,100\" stroke=\"red\" stroke-width=\"4\" " ++
      "fill=\"none\"> svganimatetransform_tag </polyline>",
    "<polyline fill=\"none\" stroke=\"blue\" stroke-width=\"10\" points=\"50,375 150,375 " ++
      "150,325 250,325 250,375 350,375 350,250 450,250 450,375 550,375 550,175 650,175 " ++
      "650,375 750,375 750,100 850,100 850,375 950,375 950,25 1050,25 1050,375 1150,375\" />",
    "<polyline fill=\"none\" stroke=\"blue\" stroke-width=\"10\" points=\"50,375 150,375 " ++
      "150,325 250,325 250,375 350,375 350,250 450,250 450,375 550,375 550,175 650,175 " ++
      "650,375 750,375 750,100 850,100 850,375 950,375 950,25 1050,25 1050,375 1150,375\"> " ++
      "svganimatetransform_tag </polyline>"]),
  ("svgrect_tag", [
    "<rect x=\"25\" y=\"25\" width=\"200\" height=\"200\" fill=\"lime\" stroke-width=\"4\" " ++
      "stroke=\"pink\"> </rect>",
    "<rect x=\"25\" y=\"25\" width=\"200\" height=\"200\" fill=\"lime\" stroke-width=\"4\" " ++
      "stroke=\"pink\"> svganimatetransform_tag </rect>"])]

end PageFuzz.Page
