/-!
# Rules for style sheets
-/

namespace PageFuzz.Page

def styles : List (String × List String) := [
  ("style_tag", [
    "<style media=\"print\" scoped type=\"text/css\"> body_rule </style>",
    "<style media=\"screen\" scoped type=\"text/css\"> code_rule h1_rule hr_rule img_rule " ++
      "p_rule pre_rule svg_rule </style>",
    "<style media=\"screen\" scoped type=\"text/css\"> body_rule </style>"]),
  ("body_rule", [
    "body \x7bmargin:0;padding:0;font-family:\"Nexa Bold\",sans-serif;" ++
      "text-rendering:optimizeLegibility!important;" ++
      "-webkit-font-smoothing:antialiased!important;font-size:16px;color:#58595b;" ++
      "background:#f2f2f2!important;overflow-x:hidden\x7d"]),
  ("code_rule", ["code,kbd,pre,samp\x7bfont-size:1em\x7d"]),
  ("h1_rule", ["h1 \x7bcolor:red;\x7d"]),
  ("hr_rule", [
    "hr\x7bheight:0;-webkit-box-sizing:content-box;-moz-box-sizing:content-box;" ++
      "box-sizing:content-box\x7d"]),
  ("img_rule", ["img \x7bborder:0;vertical-align:middle\x7d"]),
  ("p_rule", ["p \x7bcolor:blue;\x7d"]),
  ("pre_rule", ["pre,textarea\x7boverflow:auto\x7d"]),
  ("svg_rule", ["svg:not(:root)\x7boverflow:hidden\x7d"])]

end PageFuzz.Page
