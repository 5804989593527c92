/-!
# Rules for the elements of a page

A rule for each element and for what may stand inside the larger ones, with its alternatives.  A
word that is the name of a rule refers to it; all other words are written as they stand.
-/

namespace PageFuzz.Page

def elements : List (String × List String) := [
  ("a_tag", [
    "<a accesskey=\"c\" charset=\"UTF-8\" coords=\"0,0,82,126\" download=\"blah\" " ++
      "href=\"http://127.0.0.1\" hreflang=\"en\" media=\"screen and (min-width:500px)\" " ++
      "name=\"blah\" rel=\"nofollow\" rev=\"alternate\" shape=\"rect\" target=\"_top\" " ++
      "type=\"text/html\"> a_content </a>"]),
  ("a_content", ["heading", "text"]),
  ("abbr_tag", ["<abbr title=\"blah\"> blah </abbr>"]),
  ("acronym_tag", ["<acronym title=\"blah\"> blah </acronym>"]),
  ("address_tag", ["<address> address_content </address>"]),
  ("address_content", ["p_tag", "text"]),
  ("app_tag", ["<app code=\"blah.class\"></app>"]),
  ("applet_content", [
    "<param name=\"autoplay\" type=\"blah\" value=\"true\" valuetype=\"object\"> body_content"]),
  ("applet_tag", [
    "<applet align=\"left\" alt=\"blah\" archive=\"http://127.0.0.1\" code=\"blah.class\" " ++
      "codebase=\"http://127.0.0.1\" height=\"350\" hspace=\"5\" name=\"blah\" " ++
      "object=\"blah\" vspace=\"5\" width=\"350\"> applet_content </applet>"]),
  ("area_tag", [
    "<area alt=\"blah\" coords=\"0,0,82,126\" download=\"blah\" href=\"http://127.0.0.1\" " ++
      "hreflang=\"en\" media=\"screen and (min-color-index:256)\" nohref rel=\"alternate\" " ++
      "shape=\"circle\" target=\"_top\" type=\"text/html\">"]),
  ("article_tag", ["<article> block_content </article>"]),
  ("aside_tag", ["<aside> h3_tag p_tag </aside>"]),
  ("audio_tag", [
    "<audio autoplay controls loop preload=\"none\"> source_tag </audio>",
    "<audio autoplay controls loop preload=\"none\" src=\"blah.ogg\"> </audio>"]),
  ("b_tag", ["<b> text </b>"]),
  ("base_tag", ["<base href=\"http://127.0.0.1\" target=\"_parent\">"]),
  ("basefont_tag", [
    "<basefont color=\"red\" face=\"courier, serif\" size=\"5\"> body_content </basefont>"]),
  ("bdi_tag", ["<bdi> blah blah </bdi>"]),
  ("bdo_tag", ["<bdo dir=\"rtl\"> blah blah </bdo>"]),
  ("bgsound_tag", ["<bgsound balance=\"1\" loop=\"3\" src=\"blah.wav\" volume=\"1\">"]),
  ("big_tag", ["<big> text </big>"]),
  ("blink_tag", ["<blink> text </blink>"]),
  ("block", ["block_content"]),
  ("block_content", [
    "article_tag", "aside_tag", "basefont_tag", "blockquote_tag", "button_tag", "center_tag",
    "datalist_tag", "dir_tag", "div_tag", "dl_tag", "figure_tag", "footer_tag", "form_tag",
    "form_tag label_tag", "form_tag output_tag", "header_tag", "isindex_tag", "listing_tag",
    "main_tag", "header_tag main_tag footer_tag", "menu_tag", "multicol_tag", "nav_tag",
    "nobr_tag", "ol_tag", "output_tag", "p_tag", "pre_tag", "svg_tag", "table_tag",
    "template_tag", "typewriter_tag", "ul_tag", "xmp_tag"]),
  ("blockquote_tag", ["<blockquote cite=\"http://127.0.0.1\"> body_content </blockquote>"]),
  ("body_content", [
    "address_tag block", "bgsound_tag block", "comment_tag block", "hgroup_tag block",
    "heading block", "hr_tag block", "layer_tag block", "map_tag block", "marquee_tag block",
    "block text"]),
  ("br_tag", ["blah <br> blah blah"]),
  ("button_tag", [
    "<button autofocus form=\"form1\" formaction=\"blah.php\" formenctype=\"text/plain\" " ++
      "formmethod=\"post\" formnovalidate formtarget=\"_blank\" name=\"blahbutton\" " ++
      "type=\"button\" value=\"blah\"> blah </button>"]),
  ("canvas_tag", [
    "<canvas height=\"200\" id=\"blahcanvas\" width=\"200\" style=\"border:1px " ++
      "solid\"></canvas> <script> var canvas = document.getElementById(\"blahcanvas\"); var " ++
      "ctx = canvas.getContext(\"2d\"); ctx.fillStyle = \"red\"; ctx.fillRect(0, 0, 80, 80); " ++
      "</script>"]),
  ("caption_tag", ["<caption align=\"top\"> body_content </caption>"]),
  ("center_tag", ["<center> body_content </center>"]),
  ("cite_tag", [
    "<cite> text </cite>",
    "<cite accesskey=\"sdsd\" class=\"blah\" contextmenu=\"blahmenu\" dir=\"rtl\" " ++
      "draggable=\"false\" dropzone=\"link\" lang=\"en\" spellcheck=\"false\" " ++
      "tabindex=\"200\" title=\"blah\" translate=\"no\"> text </cite>"]),
  ("code_tag", ["<code> text </code>"]),
  ("colgroup_content", [
    "<col align=\"char\" char=\".\" charoff=\"2\" span=\"2\" valign=\"bottom\" width=\"80\">"]),
  ("colgroup_tag", [
    "<colgroup align=\"left\" char=\".\" charoff=\"2\" span=\"2\" valign=\"bottom\" " ++
      "width=\"80\"> colgroup_content </colgroup>"]),
  ("command_tag", [
    "<command type=\"command\" label=\"Save\" icon=\"blah.png\" onclick=\"save()\">"]),
  ("comment_tag", [
    "<!-- This is a comment -->", "<comment> This is a very old fashioned comment </comment>"]),
  ("content_style", [
    "cite_tag", "code_tag", "dfn_tag", "em_tag", "kbd_tag", "samp_tag", "strong_tag", "var_tag"]),
  ("data_tag", ["<data id=\"blahdata\" value=\"blah\"> blah </data>"]),
  ("datalist_tag", ["<datalist id=\"blahdatalist\"> option_tag option_tag </datalist>"]),
  ("dd_tag", ["<dd> flow </dd>"]),
  ("del_tag", ["<del cite=\"blah.htm\" datetime=\"2016-11-10T22:55:03Z\"> blah </del>"]),
  ("details_tag", ["<details open> summary_tag p_tag </details>"]),
  ("dfn_tag", ["<dfn title=\"blah\"> text </dfn>"]),
  ("dialog_tag", ["<dialog id=\"dialog1\" open> blah </dialog>"]),
  ("dir_tag", ["<dir compact> li_tag </dir>", "<dir> li_tag </dir>"]),
  ("div_tag", [
    "<div align=\"justify\" contextmenu=\"blahmenu\"> body_content </div>",
    "<div align=\"right\"> body_content </div>"]),
  ("dl_content", ["dt_tag dd_tag"]),
  ("dl_tag", ["<dl> dl_content </dl>"]),
  ("doctype_tag", [
    "<!DOCTYPE html>",
    "<!DOCTYPE HTML PUBLIC \"-//W3C//DTD HTML 4.01//EN\" " ++
      "\"http://www.w3.org/TR/html4/strict.dtd\">",
    "<!DOCTYPE HTML PUBLIC \"-//W3C//DTD HTML 3.2 Final//EN\">"]),
  ("dt_tag", [
    "<dt accesskey=\"h\" class=\"blah\" contextmenu=\"blahmenu\" dir=\"rtl\" " ++
      "draggable=\"true\" dropzone=\"link\" lang=\"fr\" spellcheck=\"true\" tabindex=\"2\" " ++
      "title=\"blah\" translate=\"yes\"> text </dt>",
    "<dt> text </dt>"]),
  ("em_tag", ["<em> text </em>"]),
  ("embed_tag", [
    "<embed height=\"200\" src=\"blah.swf\" type=\"application/vnd.adobe.flash-movie\" " ++
      "width=\"200\"> flash blah"]),
  ("figcaption_tag", ["<figcaption> blah </figcaption>"]),
  ("figure_tag", ["<figure> img_tag figcaption_tag </figure>"]),
  ("flow", ["flow_content"]),
  ("flow_content", ["block", "text"]),
  ("font_tag", ["<font color=\"green\" face=\"verdana\" size=\"3\"> style_text </font>"]),
  ("footer_tag", ["<footer> p_tag p_tag </footer>"]),
  ("form_content", [
    "<input accept=\"image/*\" align=\"right\" alt=\"blah\" autocomplete=\"off\" autofocus " ++
      "checked dirname=\"fname.dir\" form=\"form1\" formaction=\"demo_admin.asp\" " ++
      "formenctype=\"multipart/form-data\" formmethod=\"post\" " ++
      "formnovalidate=\"formnovalidate\" formtarget=\"_top\" height=\"48\" list=\"blah\" " ++
      "max=\"5\" maxlength=\"10\" min=\"2\" multiple name=\"email\" " ++
      "pattern=\"[A-Za-z]\x7b3\x7d\" placeholder=\"blah\" readonly required size=\"30\" " ++
      "src=\"submit.gif\" step=\"3\" type=\"file\" width=\"40\"><input type=\"submit\" " ++
      "value=\"Submit form\">",
    "body_content", "keygen_tag", "select_tag", "textarea_tag"]),
  ("form_tag", [
    "<form accept=\"image/gif,image/jpeg\" accept-charset=\"ISO-8859-1\" action=\"blah.php\" " ++
      "autocomplete=\"off\" enctype=\"text/plain\" method=\"post\" name=\"form1\" novalidate " ++
      "target=\"_self\"> <fieldset> legend_tag form_content </fieldset> </form>"]),
  ("frameset_content", [
    "<frame frameborder=\"1\" longdesc=\"w3s.txt\" marginheight=\"50\" marginwidth=\"25\" " ++
      "name=\"frame_a\" noresize=\"noresize\" scrolling=\"yes\" src=\"http://127.0.0.1\">",
    "noframes_tag"]),
  ("h1_tag", ["<h1 align=\"left\"> text </h1>"]),
  ("h2_tag", ["<h2 align=\"right\"> text </h2>"]),
  ("h3_tag", ["<h3 align=\"center\" draggable=\"true\"> text </h3>"]),
  ("h4_tag", ["<h4 align=\"justify\"> text </h4>"]),
  ("h5_tag", ["<h5 class=\"h5\"> text </h5>"]),
  ("h6_tag", ["<h6 class=\"h6\" dropzone=\"copy\"> text </h6>"]),
  ("head_content", [
    "base_tag", "isindex_tag", "link_tag", "meta_tag", "nextid_tag", "style_tag", "title_tag"]),
  ("header_tag", ["<header> h1_tag p_tag </header>"]),
  ("heading", ["h1_tag", "h2_tag", "h3_tag", "h4_tag", "h5_tag", "h6_tag"]),
  ("hgroup_tag", ["<hgroup> h1_tag h2_tag </hgroup>"]),
  ("hp_tag", ["hp0_tag", "hp1_tag", "hp2_tag", "hp3_tag"]),
  ("hp0_tag", ["<hp0> blah </hp0>"]),
  ("hp1_tag", ["<hp1> blah </hp1>"]),
  ("hp2_tag", ["<hp2> blah </hp2>"]),
  ("hp3_tag", ["<hp3> blah </hp3>"]),
  ("hr_tag", ["<hr align=\"right\" noshade size=\"30\" width=\"30\">"]),
  ("html_document", ["html_tag"]),
  ("html_tag", [
    "<html> html_content </html>",
    "<html manifest=\"\" xmlns=\"http://www.w3.org/1999/xhtml\"> html_content </html>"]),
  ("hype_tag", ["<hype> blah </hype>"]),
  ("i_tag", ["<i> text </i>"]),
  ("iframe_tag", [
    "<iframe align=\"right\" frameborder=\"1\" longdesc=\"blah.txt\" marginheight=\"50\" " ++
      "marginwidth=\"50\" name=\"blahiframe\" sandbox=\"allow-same-origin\" " ++
      "scrolling=\"yes\" srcdoc=\"<p>Hello blah!</p>\" src=\"http://127.0.0.1\" " ++
      "width=\"500\">"]),
  ("ilayer_tag", [
    "<ilayer above=\"layer1\" background=\"blah.gif\" below=\"layer2\" bgcolor=\"red\" " ++
      "class=\"classname1\" clip=\"1,1,20,20\" height=\"100\" id=\"blahblah1\" left=\"10\" " ++
      "name=\"blah\" pagex=\"10\" pagey=\"10\" src=\"https://127.0.0.1/\" style=\"blah\" " ++
      "top=\"100\" visibility=\"show\" width=\"50\" z-index=\"1\"> body_content </ilayer>"]),
  ("image_tag", ["<image src=\"blah.gif\"></image>"]),
  ("img_tag", [
    "<img alt=\"blah\" border=\"5\" crossorigin=\"anonymous\" height=\"100\" hspace=\"20\" " ++
      "src=\"blah.gif\" width=\"100\">"]),
  ("ins_tag", ["<ins cite=\"blah.html\" datetime=\"2016-09-15T22:55:03Z\"> blah blah </ins>"]),
  ("isindex_tag", ["<isindex action=\"http://127.0.0.1\" prompt=\"blah\">"]),
  ("kbd_tag", ["<kbd> text </kbd>"]),
  ("key_tag", ["<key> blah </key>"]),
  ("keygen_tag", [
    "<keygen autofocus challenge form=\"form1\" keytype=\"rsa\" name=\"security\">"]),
  ("label_tag", ["<label for=\"blah\" form=\"form1\"> blah </label>"]),
  ("layer_tag", [
    "<layer id=\"layer1\" top=\"250\" left=\"50\" width=\"200\" height=\"200\" " ++
      "bgcolor=\"red\"> body_content </layer>"]),
  ("legend_tag", ["<legend align=\"right\"> blah </legend>"]),
  ("li_tag", ["<li type=\"square\" value=\"100\"> flow </li>", "<li hidden> flow </li>"]),
  ("link_tag", [
    "<link charset=\"ISO-2022-JP\" crossorigin=\"anonymous\" href=\"theme.css\" " ++
      "hreflang=\"en\" media=\"print\" rel=\"dns-prefetch\" rev=\"parent\" sizes=\"16x16\" " ++
      "target=\"_blank\" type=\"text/css\">"]),
  ("listing_tag", ["<listing> blah blah </listing>"]),
  ("main_tag", ["<main> article_tag article_tag </main>"]),
  ("map_content", ["area_tag"]),
  ("map_tag", ["<map name=\"blahmap\"> map_content </map>"]),
  ("mark_tag", ["<mark> blah </mark>"]),
  ("marquee_tag", [
    "<marquee width=\"200\" height=\"50\" direction=\"left\" behavior=\"alternate\" " ++
      "scrolldelay=\"500\" scrollamount=\"50\" bgcolor=\"yellow\" hspace=\"10\" " ++
      "vspace=\"10\" loop=\"20\"> style_text </marquee>",
    "<marquee width=\"2000\" height=\"500\" direction=\"right\" behavior=\"alternate\" " ++
      "scrolldelay=\"500\" scrollamount=\"80\" bgcolor=\"blue\" hspace=\"50\" vspace=\"50\" " ++
      "loop=\"20\"> scrolling along </marquee>"]),
  ("menu_tag", [
    "<menu label=\"blahmenu\" type=\"list\" id=\"mymenu\"> li_tag </menu>",
    "<menu label=\"blahmenu\" type=\"list\" id=\"mymenu\"> menuitem_tag </menu>"]),
  ("menuitem_tag", [
    "<menuitem checked default icon=\"blah.png\" type=\"radio\" radiogroup=\"alignment\" " ++
      "label=\"Left\"></menuitem>"]),
  ("meter_tag", [
    "<meter form=\"form1\" name=\"x1\" min=\"0\" low=\"40\" high=\"90\" max=\"100\" " ++
      "optimum=\"72\" value=\"95\"></meter>"]),
  ("multicol_tag", ["<multicol width=\"150\" cols=\"3\"> body_content </multicol>"]),
  ("nav_tag", ["<nav> a_tag a_tag </nav>"]),
  ("nextid_tag", ["<nextid N=\"z20\">"]),
  ("nobr_tag", ["<nobr> text </nobr>"]),
  ("noembed_tag", ["<noembed> blah blah </noembed>"]),
  ("noframes_tag", ["<noframes> body_content </noframes>"]),
  ("noscript_tag", ["<noscript> text </noscript>"]),
  ("object_content", ["param_tag body_content"]),
  ("object_tag", [
    "<object tabindex=\"3\" align=\"right\" border=\"5\" data=\"blah.swf\" declare " ++
      "form=\"form1\" height=\"200\" hspace=\"100\" name=\"obj1\" standby=\"blah blah\" " ++
      "vspace=\"100\" width=\"200\"> object_content </object>"]),
  ("ol_tag", ["<ol compact reversed start=\"50\" type=\"I\"> li_tag li_tag li_tag </ol>"]),
  ("option_tag", ["<option label=\"blah\" value=\"blah\" selected> plain_text </option>"]),
  ("output_tag", ["<output form=\"form1\" name=\"x\" for=\"a b\"></output>"]),
  ("p_tag", [
    "<p align=\"center\" contenteditable=\"false\" id=\"p_fuzz\"> text </p>",
    "<p align=\"left\" id=\"p_fuzz\" translate=\"yes\"> text </p>"]),
  ("param_tag", ["<param name=\"autoplay\" type=\"blah\" value=\"true\" valuetype=\"object\">"]),
  ("physical_style", [
    "b_tag", "big_tag", "blink_tag", "font_tag", "i_tag", "s_tag", "small_tag", "span_tag",
    "strike_tag", "sub_tag", "sup_tag", "tt_tag", "u_tag"]),
  ("plain_text", ["blah blah blah"]),
  ("plaintext_tag", ["<plaintext> blah blah blah"]),
  ("pre_content", ["a_tag", "br_tag", "hr_tag", "style_text"]),
  ("pre_tag", ["<pre width=\"30\"> pre_content </pre>"]),
  ("progress_tag", ["<progress value=\"22\" max=\"100\"></progress>"]),
  ("q_tag", ["<q cite=\"blah.html\"> blah </q>"]),
  ("ruby_tag", [
    "<ruby> blah <rb> blah </rb> <rt> <rp>(</rp> blah <rp>)</rp> </rt> <rtc> blah </rtc> " ++
      "</ruby>"]),
  ("s_tag", ["<s> text </s>"]),
  ("samp_tag", ["<samp> text </samp>"]),
  ("script_tag", [
    "<script async charset=\"UTF-8\"> document.write(\"blah blah!\") </script>",
    "<script defer type=\"text/javascript\" xml:space=\"preserve\"> " ++
      "document.getElementById(\"demo\").innerHTML = \"blah!\"; </script>"]),
  ("section_tag", ["<section> h1_tag p_tag </section>"]),
  ("select_tag", [
    "<select autofocus form=\"form1\" multiple name=\"blahselect\" required size=\"5\"> " ++
      "<optgroup label=\"blah\"> option_tag option_tag </optgroup> </select>"]),
  ("server_tag", ["<server> plain_text </server>"]),
  ("small_tag", ["<small> text </small>"]),
  ("sound_tag", ["<sound> blah </sound>"]),
  ("source_tag", [
    "<source media=\"screen and (min-width:320px)\" src=\"blah.mp3\" type=\"audio/mpeg\">"]),
  ("spacer_tag", [
    "<spacer align=\"left\" size=\"90\" type=\"horizontal\">",
    "<spacer align=\"right\" size=\"150\" type=\"vertical\">",
    "<spacer align=\"center\" type=\"block\" width=\"100\" height=\"100\">"]),
  ("span_tag", ["<span style=\"color:blue\"> text </span>"]),
  ("strike_tag", ["<strike> text </strike>"]),
  ("strong_tag", ["<strong> text </strong>"]),
  ("style_text", ["testing testing"]),
  ("sub_tag", ["<sub> text </sub>"]),
  ("summary_tag", ["<summary> blah </summary>"]),
  ("sup_tag", ["<sup> text </sup>"]),
  ("table_cell", ["td_tag", "th_tag"]),
  ("table_content", [
    "<thead align=\"char\" char=\".\" charoff=\"5\" valign=\"top\"> tr_tag </thead> <tfoot " ++
      "align=\"char\" char=\".\" charoff=\"1\" valign=\"top\"> tr_tag </tfoot> <tbody " ++
      "align=\"right\" char=\".\" charoff=\"2\" valign=\"bottom\"> tr_tag </tbody>"]),
  ("table_tag", [
    "<table align=\"right\" bgcolor=\"yellow\" border=\"1\" cellpadding=\"10\" " ++
      "cellspacing=\"10\" frame=\"box\" rules=\"rows\" sortable summary=\"blah blah\" " ++
      "width=\"400\"> caption_tag colgroup_tag table_content </table>"]),
  ("td_tag", [
    "<td abbr=\"blah\" axis=\"blah\" bgcolor=\"red\" headers=\"blah\" nowrap scope=\"row\" " ++
      "valign=\"baseline\"> body_content </td>"]),
  ("template_tag", ["<template id=\"blah\"> tr_tag tr_tag </template>"]),
  ("text", ["text_content"]),
  ("text_content", [
    "a_tag", "abbr_tag", "acronym_tag", "app_tag", "applet_tag", "audio_tag", "b_tag", "bdi_tag",
    "bdo_tag", "big_tag", "blink_tag", "br_tag", "canvas_tag", "cite_tag", "code_tag",
    "command_tag", "comment_tag", "data_tag", "del_tag", "details_tag", "dfn_tag", "dialog_tag",
    "em_tag", "embed_tag", "font_tag", "hp_tag", "hype_tag", "i_tag", "iframe_tag", "ilayer_tag",
    "image_tag", "img_tag", "ins_tag", "kbd_tag", "key_tag", "mark_tag", "meter_tag",
    "noembed_tag", "noscript_tag", "object_tag", "plain_text", "progress_tag", "q_tag",
    "ruby_tag", "s_tag", "script_tag", "section_tag", "server_tag", "small_tag", "sound_tag",
    "spacer_tag", "span_tag", "strike_tag", "strong_tag", "sub_tag", "sup_tag", "u_tag",
    "samp_tag", "svg_tag", "time_tag", "tt_tag", "u_tag", "var_tag", "video_tag", "wbr_tag"]),
  ("textarea_tag", [
    "<textarea spellcheck=\"true\" cols=\"2\" dirname=\"blah.dir\" form=\"form1\" " ++
      "maxlength=\"50\" name=\"blahtextarea\" placeholder=\"blah\" required rows=\"2\" " ++
      "wrap=\"hard\"> plain_text </textarea>"]),
  ("th_tag", [
    "<th abbr=\"blah\" axis=\"blah\" bgcolor=\"red\" headers=\"blah\" nowrap scope=\"row\" " ++
      "valign=\"baseline\"> body_content </th>"]),
  ("time_tag", ["<time datetime=\"2016-02-14\"> blah </time>"]),
  ("title_tag", ["<title> plain_text </title>"]),
  ("tr_tag", ["<tr align=\"right\" bgcolor=\"blue\" valign=\"middle\"> table_cell </tr>"]),
  ("tt_tag", ["<tt> text </tt>"]),
  ("typewriter_tag", ["<typewriter> pre_content </typewriter>"]),
  ("u_tag", ["<u> text </u>"]),
  ("ul_tag", [
    "<ul compact type=\"square\"> li_tag li_tag li_tag </ul>",
    "<ul type=\"circle\"> li_tag li_tag li_tag </ul>"]),
  ("var_tag", ["<var> text </var>"]),
  ("video_tag", [
    "<video autoplay loop preload=\"metadata\" width=\"320\" height=\"240\" controls> " ++
      "<source src=\"blah.mp4\" type=\"video/mp4\"> <track default src=\"blah.vtt\" " ++
      "kind=\"subtitles\" srclang=\"en\" label=\"English\"> </video>"]),
  ("wbr_tag", ["<wbr> text"]),
  ("xmp_tag", ["<xmp> <b> should not be bold </b> </xmp>"])]

end PageFuzz.Page
